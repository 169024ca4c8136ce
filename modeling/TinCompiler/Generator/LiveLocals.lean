import TinCompiler.Generator.Storage

/-!
# Live locals

From the tables that the parser leaves (`Scoped`) to any statement that the generator comes to:
`CheckFunction` declares the parameters of a function in the scope of its body, the phases of other
functions and files add nothing to its scopes (`Untouched`), and `GenerateFunction` starts with
them.  So the variables that are visible at the statement have storage of their own
(`StorageApart`).
-/

namespace TinCompiler

open GeneratorM

mutual

theorem ASTBody.mem_scopes_of_declaring : ∀ (body : ASTBody) {i : ScopeId},
    i ∈ body.declaring → i ∈ body.scopes
  | .mk scopeId statements, i, hi => by
      change i ∈ (if statements.any ASTStatement.declares then [scopeId] else []) ++
        declaringOfStatements statements at hi
      rcases List.mem_append.mp hi with hi | hi
      · split at hi
        · rw [List.mem_singleton.mp hi]
          exact List.mem_cons_self ..
        · cases hi
      · exact List.mem_cons_of_mem _ (mem_scopes_of_declaringOfStatements statements hi)

theorem mem_scopes_of_declaringOfStatements : ∀ (statements : List ASTStatement) {i : ScopeId},
    i ∈ declaringOfStatements statements → i ∈ scopesOfStatements statements
  | [], _, hi => hi
  | statement :: rest, _, hi =>
      List.mem_append.mpr ((List.mem_append.mp hi).imp (mem_scopes_of_declaringOfStatement statement)
        (mem_scopes_of_declaringOfStatements rest))

theorem mem_scopes_of_declaringOfStatement : ∀ (statement : ASTStatement) {i : ScopeId},
    i ∈ declaringOfStatement statement → i ∈ scopesOfStatement statement
  | .while _ body _, _, hi => body.mem_scopes_of_declaring hi
  | .ifElse _ body none _, _, hi => body.mem_scopes_of_declaring hi
  | .ifElse _ body (some elseBody) _, _, hi =>
      List.mem_append.mpr ((List.mem_append.mp hi).imp body.mem_scopes_of_declaring
        elseBody.mem_scopes_of_declaring)
  | .varDeclaration .., _, hi => by cases hi
  | .globalDeclaration .., _, hi => by cases hi
  | .constDeclaration .., _, hi => by cases hi
  | .expression .., _, hi => by cases hi
  | .break _, _, hi => by cases hi
  | .continue _, _, hi => by cases hi
  | .return .., _, hi => by cases hi

end

namespace Generation

/-! ## The tables of the parser -/

/-- The scopes that the parser leaves: those of a body are its own and are linked with scopes of the
body only, up to the scope in which the body is. -/
structure Scoped (s : Generation) : Prop extends Parsed s where
  shared : ∀ i ∈ s.bodyScopes, (s.1.scopes i).sharedScopes = []
  outer : ∀ i, i ∉ s.bodyScopes → (s.1.scopes i).scopeId ∉ s.bodyScopes ∧
    (s.1.scopes i).parent ∉ s.bodyScopes ∧ ∀ j ∈ (s.1.scopes i).sharedScopes, j ∉ s.bodyScopes
  own : ∀ f g body body', f ≠ g → (s.1.functions f).body = some body →
    (s.1.functions g).body = some body' → ∀ i ∈ body.scopes, i ∉ body'.scopes
  nested : ∀ f body, (s.1.functions f).body = some body →
    (s.1.scopes body.scopeId).parent ∉ s.bodyScopes ∧
      ApartStatements (fun i => (s.1.scopes i).parent) [body.scopeId] body.statements
  unchecked : ∀ f body, (s.1.functions f).body = some body → (s.1.functions f).returnType = .void

end Generation

/-! ## Phases of other functions -/

/-- The phase is not about the function, and its globals are those of a file. -/
def Phase.Elsewhere (s : Generation) (f : ℕ) : Phase → Prop
  | .checkFunction _ g | .generateFunction g => g ≠ f
  | .checkGlobals scopeId _ => scopeId ∉ s.bodyScopes

namespace Generation

/-- The function and the scopes of its body are the same. -/
structure Untouched (f : ℕ) (body : ASTBody) (s s' : Generation) : Prop where
  tables : SameTables s.1 s'.1
  scopes : ∀ i ∈ body.scopes, s'.1.scopes i = s.1.scopes i
  function : s'.1.functions f = s.1.functions f

variable {s s' s'' : Generation} {f : ℕ} {body : ASTBody}

theorem Untouched.refl (s : Generation) : Untouched f body s s :=
  ⟨.refl _, fun _ _ => rfl, rfl⟩

theorem Untouched.trans (h : Untouched f body s s') (h' : Untouched f body s' s'') :
    Untouched f body s s'' :=
  ⟨h.tables.trans h'.tables, fun i hi => (h'.scopes i hi).trans (h.scopes i hi),
    h'.function.trans h.function⟩

/-- `CheckFunction` on another function. -/
theorem functions_checkFunction (ast : AST) (reporter : Reporter) (scopeId : ScopeId) {g : ℕ}
    (hne : f ≠ g)
    (hfunctions : (checkParameters scopeId (ast.functions g) (ast.functions g).parameters 16 ast
      reporter).2.2.1.functions = ast.functions) :
    (TinCompiler.checkFunction ast reporter scopeId g).1.functions f = ast.functions f := by
  unfold TinCompiler.checkFunction
  dsimp only
  split
  · exact (Function.update_of_ne hne ..).trans (congrFun hfunctions f)
  · split
    · exact (Function.update_of_ne hne ..).trans (congrFun hfunctions f)
    · exact (Function.update_of_ne hne ..).trans (congrFun hfunctions f)

theorem untouched_advance (hs : s.Scoped) (htidy : Tidy s s')
    (hbody : (s.1.functions f).body = some body) : ∀ {phase : Phase}, phase.Elsewhere s f →
    Untouched f body s' (s'.advance phase)
  | .checkFunction scopeId g, hne => by
      have hin : ∀ body, (s'.1.functions g).body = some body → body.scopeId ∈ s.bodyScopes := by
        intro body hbody
        refine htidy.mem_bodyScopes hbody _ ?_
        cases body
        exact List.mem_cons_self ..
      obtain ⟨-, hfunctions⟩ := globalsOnly_checkParameters scopeId hin
        (s'.1.functions g).parameters 16 s'.2.2 htidy.globals
      obtain ⟨hscopes, -⟩ := checkFunction_same scopeId g s'.2.2 hfunctions
      refine ⟨(kept_checkFunction s'.1 s'.2.2 scopeId g).types, fun i hi => ?_,
        functions_checkFunction s'.1 s'.2.2 scopeId (Ne.symm hne) hfunctions⟩
      refine (congrFun hscopes i).trans (scopes_checkParameters scopeId _ ?_ _ _ _ _)
      rintro ⟨scope, statements⟩ hother rfl
      rw [htidy.bodies] at hother
      exact hs.own f g body _ (Ne.symm hne) hbody hother _ hi (List.mem_cons_self ..)
  | .checkGlobals scopeId statements, hout => by
      obtain ⟨-, hfunctions⟩ := globalsOnly_checkGlobals scopeId statements s'.2.1 s'.2.2
        htidy.globals
      refine ⟨(kept_checkGlobals scopeId statements s'.1 s'.2.1 s'.2.2).types, fun i hi => ?_,
        congrFun hfunctions f⟩
      refine scopes_checkGlobals ?_ statements s'.1 s'.2.1 s'.2.2
      rintro rfl
      exact hout ⟨f, body, hbody, hi⟩
  | .generateFunction g, hne => by
      change Untouched f body s' (TinCompiler.generateFunction s'.1 g s'.2.1 s'.2.2)
      by_cases hgenerates : s'.Generates g
      · obtain ⟨body', hbody'⟩ := Option.isSome_iff_exists.mp hgenerates.2
        have hfunctions := (finish_spec hgenerates).2.1
        have htables := (kept_generateFunction s'.1 g s'.2.1 s'.2.2).types
        rw [generateFunction_eq_finish hgenerates] at htables ⊢
        refine ⟨htables, fun i hi => ?_, ?_⟩
        · have hother := hbody'
          rw [htidy.bodies] at hother
          have hspares : (generateBody body').SparesAt (s'.bodyStart g) body'.declaring :=
            .generateBody body' _
          have hast : (s'.finish g).ast = (generateBody body' (s'.bodyStart g)).2.ast := by
            rw [finish_eq hbody', generateFunctionCode_snd]
            exact (GeneratorM.Framed.generateFinalRet _ _).ast
          have hnot : i ∉ body'.declaring := fun hmem =>
            hs.own f g body body' (Ne.symm hne) hbody hother i hi (body'.mem_scopes_of_declaring hmem)
          calc (s'.finish g).ast.scopes i = (generateBody body' (s'.bodyStart g)).2.ast.scopes i := by
                rw [hast]
            _ = (s'.bodyStart g).ast.scopes i := hspares.others i hnot
            _ = s'.1.scopes i := by
                rw [ast_bodyStart]
                rfl
        · change (s'.finish g).ast.functions f = _
          rw [hfunctions, AST.functions_setPiece_of_ne _ _ _ (Ne.symm hne)]
      · have hsame : TinCompiler.generateFunction s'.1 g s'.2.1 s'.2.2 = s' := by
          unfold TinCompiler.generateFunction
          dsimp only
          split
          · next hnative hbody =>
              exact absurd ⟨hnative, by rw [hbody]; rfl⟩ hgenerates
          · rfl
        rw [hsame]
        exact .refl s'

/-- What phases of others preserve. -/
theorem untouched_run (hs : s.Scoped) (hbody : (s.1.functions f).body = some body) :
    ∀ (phases : List Phase) {s' : Generation}, Tidy s s' →
      (∀ phase ∈ phases, phase.Elsewhere s f) → Untouched f body s' (s'.run phases)
  | [], s', _, _ => .refl s'
  | phase :: phases, _, htidy, hall =>
      (untouched_advance hs htidy hbody (hall phase (List.mem_cons_self ..))).trans
        (untouched_run hs hbody phases (htidy.advance phase) fun phase hmem =>
          hall phase (List.mem_cons_of_mem _ hmem))

/-! ## `CheckFunction` -/

/-- The parameters of the function are declared, and nothing else in its scopes. -/
structure Checked (f : ℕ) (body : ASTBody) (s : Generation) : Prop where
  parameters : ∃ n, ParametersBelow s.1 body.scopeId (s.1.functions f).parameters n
  fresh : ∀ i ∈ body.scopes, i ≠ body.scopeId → ∀ name, (s.1.scopes i).identifiers name = none
  result : (s.1.functions f).returnType.Valid → (s.1.functions f).returnOffset =
    -(alignUp (s.1.sizeOfType (s.1.functions f).returnType) 8 : ℤ)

theorem Checked.of_untouched (h : Checked f body s) (hsame : Untouched f body s s') :
    Checked f body s' := by
  have hsizes := hsame.tables.sizeOfType
  have hroot : s'.1.scopes body.scopeId = s.1.scopes body.scopeId := by
    refine hsame.scopes _ ?_
    cases body
    exact List.mem_cons_self ..
  obtain ⟨n, hparameters⟩ := h.parameters
  refine ⟨⟨n, ?_, ?_, ?_⟩, fun i hi hne => ?_, ?_⟩
  · rw [hroot, hsame.function]
    exact hparameters.known
  · rw [hroot, hsizes]
    exact hparameters.below
  · rw [hroot, hsizes]
    exact hparameters.apart
  · rw [hsame.scopes i hi]
    exact h.fresh i hi hne
  · rw [hsame.function, hsizes]
    exact h.result

theorem checked_checkFunction (hbody : (s.1.functions f).body = some body)
    (hfresh : ∀ i ∈ body.scopes, ∀ name, (s.1.scopes i).identifiers name = none)
    (hvoid : (s.1.functions f).returnType = .void) (scopeId : ScopeId) :
    Checked f body (s.advance (.checkFunction scopeId f)) := by
  have hroot : body.scopeId ∈ body.scopes := by
    cases body
    exact List.mem_cons_self ..
  have hstart : ParametersBelow s.1 body.scopeId [] 16 := by
    refine ⟨fun name _ hfound => ?_, fun name _ hfound => ?_, fun name _ _ _ hfound => ?_⟩ <;>
      · rw [hfresh _ hroot] at hfound
        cases hfound
  obtain ⟨n, hparameters⟩ := ParametersBelow.checkParameters scopeId hbody
    (s.1.functions f).parameters s.2.2 (Nat.le_refl 16) hstart
  have hscopes : ∀ i ∈ body.scopes, i ≠ body.scopeId →
      (TinCompiler.checkParameters scopeId (s.1.functions f) (s.1.functions f).parameters 16 s.1
        s.2.2).2.2.1.scopes i = s.1.scopes i := fun i _ hne =>
    scopes_checkParameters scopeId _ (fun body' hbody' => by
      rw [hbody] at hbody'
      cases hbody'
      exact hne) _ _ _ _
  generalize hchecked : TinCompiler.checkParameters scopeId (s.1.functions f)
    (s.1.functions f).parameters 16 s.1 s.2.2 = checked at hparameters hscopes
  -- the tables behind the parameters, with any function that has them
  have hset : ∀ function : ASTFunction, function.parameters = checked.1 →
      (function.returnType.Valid → function.returnOffset =
        -(alignUp (checked.2.2.1.sizeOfType function.returnType) 8 : ℤ)) →
      ∀ (bytecode : Bytecode) (reporter : Reporter), Checked f body ({ checked.2.2.1 with
        functions := Function.update checked.2.2.1.functions f function }, bytecode, reporter) := by
    intro function hfunction hresult bytecode reporter
    have hself : Function.update checked.2.2.1.functions f function f = function :=
      Function.update_self ..
    refine ⟨⟨n, ?_, hparameters.below, hparameters.apart⟩, fun i hi hne name => ?_, ?_⟩
    · intro name identifier hfound
      change identifier.IsParameter (Function.update checked.2.2.1.functions f function f).parameters
        name
      rw [hself, hfunction]
      exact hparameters.known name identifier hfound
    · change (checked.2.2.1.scopes i).identifiers name = none
      rw [hscopes i hi hne]
      exact hfresh i hi name
    · change (Function.update checked.2.2.1.functions f function f).returnType.Valid →
        (Function.update checked.2.2.1.functions f function f).returnOffset = -(alignUp
          (checked.2.2.1.sizeOfType (Function.update checked.2.2.1.functions f function f).returnType)
          8 : ℤ)
      rw [hself]
      exact hresult
  change Checked f body ((TinCompiler.checkFunction s.1 s.2.2 scopeId f).1, s.2.1,
    (TinCompiler.checkFunction s.1 s.2.2 scopeId f).2)
  unfold TinCompiler.checkFunction
  dsimp only
  rw [hchecked]
  split
  · exact hset _ rfl (fun hvalid => absurd (hvoid ▸ hvalid) (by decide)) _ _
  · split
    · exact hset _ rfl (fun _ => rfl) _ _
    · next hvalid => exact hset _ rfl (fun h => absurd h hvalid) _ _

end Generation

/-! ## Visible variables -/

/-- Two ranges of the frame have no byte in common. -/
def RangesApart (range range' : ℤ × ℤ) : Prop := range.2 ≤ range'.1 ∨ range'.2 ≤ range.1

def Identifier.range (ast : AST) (identifier : Identifier) : ℤ × ℤ :=
  (identifier.offset, identifier.offset + ast.sizeOfType identifier.type)

/-- Where the result is returned. -/
def ASTFunction.resultRange (ast : AST) (function : ASTFunction) : ℤ × ℤ :=
  (function.returnOffset, function.returnOffset + ast.sizeOfType function.returnType)

/-- The saved pc, piece and bp. -/
def savedRange : ℤ × ℤ := (0, 16)

/-- A variable or a parameter that the name stands for. -/
def GeneratorContext.Visible (c : GeneratorContext) (name : String) (identifier : Identifier) :
    Prop :=
  c.ast.findVariable name c.currentScopeId = some identifier ∧ identifier.kind = .localId

/-- Everything that is in use at a point of the code of the function has storage of its own. -/
structure StorageApart (function : ASTFunction) (c : GeneratorContext) : Prop where
  locals : ∀ (name other : String) (identifier identifier' : Identifier),
    c.Visible name identifier → c.Visible other identifier' → name ≠ other →
      RangesApart (identifier.range c.ast) (identifier'.range c.ast)
  result : function.returnType.Valid → ∀ (name : String) (identifier : Identifier),
    c.Visible name identifier → RangesApart (identifier.range c.ast) (function.resultRange c.ast)
  saved : ∀ (name : String) (identifier : Identifier),
    c.Visible name identifier → RangesApart (identifier.range c.ast) savedRange
  resultSaved : function.returnType.Valid → RangesApart (function.resultRange c.ast) savedRange
  reserved : ∀ (name : String) (identifier : Identifier), c.Visible name identifier →
    (c.currentFrameOffset ≤ identifier.offset ∧
      identifier.offset + c.ast.sizeOfType identifier.type ≤ 0) ∨
        identifier.IsParameter function.parameters name

namespace Generation

variable {s : Generation} {c : GeneratorContext} {live : List ScopeId} {bottom : ℤ}
  {parameters : List Parameter} {statements : List ASTStatement}

/-- The search for a variable stays in the open scopes until it comes to the file. -/
theorem exists_live_of_visible (hs : s.Scoped)
    (h : Open s.1 s.bodyScopes parameters bottom c live statements)
    (hglobals : GlobalsOnly s.bodyScopes c.ast) {name : String} {identifier : Identifier}
    (hvisible : c.Visible name identifier) :
    ∃ i ∈ live, (c.ast.scopes i).identifiers name = some identifier := by
  obtain ⟨hfound, hkind⟩ := hvisible
  have hshared : ∀ i ∈ {i | i ∈ live ∨ i ∉ s.bodyScopes}, ∀ j ∈ (c.ast.scopes i).sharedScopes,
      j ∈ {i | i ∈ live ∨ i ∉ s.bodyScopes} := by
    intro i hi j hj
    rw [h.tables.sharedScopes] at hj
    rcases hi with hi | hi
    · rw [hs.shared i (h.members i hi)] at hj
      cases hj
    · exact .inr ((hs.outer i hi).2.2 j hj)
  have hparent : ∀ i ∈ {i | i ∈ live ∨ i ∉ s.bodyScopes},
      (c.ast.scopes i).parent ∈ {i | i ∈ live ∨ i ∉ s.bodyScopes} := by
    intro i hi
    rw [h.tables.parent]
    rcases hi with hi | hi
    · exact h.parents i hi
    · exact .inr (hs.outer i hi).2.1
  have hstart : ∀ i ∈ (AST.createScopeIterator c.currentScopeId).searchScopes,
      i ∈ {i | i ∈ live ∨ i ∉ s.bodyScopes} := by
    intro i hi
    obtain rfl : i = c.currentScopeId := List.mem_singleton.mp hi
    exact .inl h.current
  obtain ⟨i, hi, hselect⟩ := AST.exists_mem_of_searchFrom hshared hparent hstart hfound
  refine ⟨i, hi.resolve_right fun hout => ?_, hselect⟩
  -- the scopes of files have globals only
  have hid : (c.ast.scopes i).scopeId ∉ s.bodyScopes := by
    rw [h.tables.scopeId]
    exact (hs.outer i hout).1
  rw [hglobals.globals i name identifier hid hselect] at hkind
  cases hkind

theorem storageApart_of_open (hs : s.Scoped) {function : ASTFunction}
    (h : Open s.1 s.bodyScopes function.parameters bottom c live statements)
    (hglobals : GlobalsOnly s.bodyScopes c.ast)
    (hbottom : function.returnType.Valid → function.returnOffset = bottom ∧
      bottom = -(alignUp (s.1.sizeOfType function.returnType) 8 : ℤ)) :
    StorageApart function c := by
  have hsizes := h.tables.sizeOfType
  have htop := h.stored.nonpositive
  have hinside : ∀ (name : String) (identifier : Identifier), c.Visible name identifier →
      (c.currentFrameOffset ≤ identifier.offset ∧
        identifier.offset + s.1.sizeOfType identifier.type ≤ bottom) ∨
          identifier.IsParameter function.parameters name := by
    intro name identifier hvisible
    obtain ⟨i, hi, hfound⟩ := exists_live_of_visible hs h hglobals hvisible
    exact h.stored.inside i hi name identifier hfound hvisible.2
  have hresult : function.returnType.Valid →
      function.returnOffset + s.1.sizeOfType function.returnType ≤ 0 := by
    intro hvalid
    obtain ⟨hoffset, hsize⟩ := hbottom hvalid
    have haligned := le_alignUp (s.1.sizeOfType function.returnType) (show 0 < 8 by decide)
    rw [hoffset, hsize]
    omega
  refine ⟨fun name other identifier identifier' hvisible hvisible' hne => ?_,
    fun hvalid name identifier hvisible => ?_, fun name identifier hvisible => ?_, fun hvalid => ?_,
    fun name identifier hvisible => ?_⟩
  · obtain ⟨i, hi, hfound⟩ := exists_live_of_visible hs h hglobals hvisible
    obtain ⟨j, hj, hfound'⟩ := exists_live_of_visible hs h hglobals hvisible'
    have hapart := h.stored.apart i hi j hj name other identifier identifier' hfound hvisible.2
      hfound' hvisible'.2 (.inr hne)
    unfold RangesApart Identifier.range
    rw [hsizes]
    exact hapart
  · unfold RangesApart Identifier.range ASTFunction.resultRange
    rw [hsizes]
    obtain ⟨hoffset, -⟩ := hbottom hvalid
    rcases hinside name identifier hvisible with ⟨-, hbelow⟩ | hparam
    · exact .inl (hoffset ▸ hbelow)
    · exact .inr ((hresult hvalid).trans ((by decide : (0 : ℤ) ≤ 16).trans hparam.1))
  · unfold RangesApart Identifier.range savedRange
    rw [hsizes]
    rcases hinside name identifier hvisible with ⟨-, hbelow⟩ | hparam
    · exact .inl (hbelow.trans htop)
    · exact .inr hparam.1
  · unfold RangesApart ASTFunction.resultRange savedRange
    rw [hsizes]
    exact .inl (hresult hvalid)
  · rw [hsizes]
    exact (hinside name identifier hvisible).imp_left fun hrange =>
      ⟨hrange.1, hrange.2.trans htop⟩

/-! ## Statements of a function -/

/-- `GenerateFunction` on the function comes to the statement in the context `c`. -/
def Compiles (s : Generation) (f : ℕ) (statement : ASTStatement) (c : GeneratorContext) : Prop :=
  s.Generates f ∧ ∃ body, (s.1.functions f).body = some body ∧
    ComesTo (s.bodyStart f).currentFrameOffset body.statements
      { s.bodyStart f with currentScopeId := body.scopeId } statement c

/-- In front of the body there is room for the result, and the parameters are declared. -/
theorem open_bodyStart {s s' : Generation} {f : ℕ} {body : ASTBody} (hs : s.Scoped)
    (hbody : (s.1.functions f).body = some body) (htables : SameTables s.1 s'.1)
    (hchecked : Checked f body s') :
    Open s.1 s.bodyScopes (s'.1.functions f).parameters (s'.bodyStart f).currentFrameOffset
      { s'.bodyStart f with currentScopeId := body.scopeId } [body.scopeId] body.statements := by
  have hast := ast_bodyStart s' f
  have hscopes : (s'.bodyStart f).ast.scopes = s'.1.scopes := by
    rw [hast]
    rfl
  have hmem : ∀ i ∈ body.scopes, i ∈ s.bodyScopes := fun i hi => ⟨f, body, hbody, hi⟩
  have hframe : (s'.bodyStart f).currentFrameOffset ≤ 0 := by
    unfold bodyStart
    rw [frameOffset_prologue]
    have hnonneg : (0 : ℤ) ≤ if (s'.1.functions f).returnType.Valid then
        (alignUp ((s'.1.setPiece f s'.2.1.pieces.length).sizeOfType (s'.1.functions f).returnType) 8 : ℤ)
        else 0 := by
      split
      · exact Int.natCast_nonneg _
      · exact Int.le_refl 0
    exact Int.sub_nonpos_of_le hnonneg
  obtain ⟨n, hparameters⟩ := hchecked.parameters
  obtain ⟨hparent, hapart⟩ := hs.nested f body hbody
  obtain ⟨scopeId, statements⟩ := body
  have hself : scopeId ∈ (ASTBody.mk scopeId statements).scopes := List.mem_cons_self ..
  refine ⟨htables.trans ?_, ⟨Int.le_refl _, hframe, ?_, ?_⟩, List.mem_singleton_self _, ?_,
    fun i hi => hmem i (List.mem_cons_of_mem _ hi), ?_, fun i hi hnot name identifier hfound => ?_,
    hapart⟩
  · change SameTables s'.1 (s'.bodyStart f).ast
    rw [hast]
    exact ⟨rfl, rfl, rfl, rfl, rfl, rfl, fun _ => rfl, fun _ => rfl, fun _ => rfl, fun _ => rfl⟩
  · intro i hi name identifier hfound _
    obtain rfl := List.mem_singleton.mp hi
    change ((s'.bodyStart f).ast.scopes _).identifiers name = some identifier at hfound
    rw [hscopes] at hfound
    exact .inr (hparameters.known name identifier hfound)
  · intro i hi j hj name other identifier identifier' hfound _ hfound' _ hne
    obtain rfl := List.mem_singleton.mp hi
    obtain rfl := List.mem_singleton.mp hj
    change ((s'.bodyStart f).ast.scopes _).identifiers name = some identifier at hfound
    change ((s'.bodyStart f).ast.scopes _).identifiers other = some identifier' at hfound'
    rw [hscopes] at hfound hfound'
    have hsizes := htables.sizeOfType
    rw [← hsizes]
    exact hparameters.apart name other identifier identifier' hfound hfound'
      (hne.resolve_left fun h => h rfl)
  · intro i hi
    obtain rfl := List.mem_singleton.mp hi
    exact hmem _ hself
  · intro i hi
    obtain rfl := List.mem_singleton.mp hi
    exact .inr hparent
  · change ((s'.bodyStart f).ast.scopes i).identifiers name = some identifier at hfound
    rw [hscopes, hchecked.fresh i (List.mem_cons_of_mem _ hi)
      (fun heq => hnot (heq ▸ List.mem_singleton_self _)) name] at hfound
    cases hfound

/-- Between the check and the generation of a function there are phases of others only. -/
theorem storage_apart {s : Generation} (hs : s.Scoped) {f : ℕ} {before after : List Phase}
    {scopeId : ScopeId} (hbefore : ∀ phase ∈ before, phase.Elsewhere s f)
    (hafter : ∀ phase ∈ after, phase.Elsewhere s f) {statement : ASTStatement}
    {c : GeneratorContext}
    (hcompiles : (s.run (before ++ .checkFunction scopeId f :: after)).Compiles f statement c) :
    StorageApart ((s.run (before ++ .checkFunction scopeId f :: after)).1.functions f) c ∧
      ∀ frame, (generateStatement frame statement c).1 = .next →
        StorageApart ((s.run (before ++ .checkFunction scopeId f :: after)).1.functions f)
          (generateStatement frame statement c).2 := by
  obtain ⟨-, body, hbody', hcomes⟩ := hcompiles
  have htidy := hs.toParsed.tidy.run (before ++ .checkFunction scopeId f :: after)
  have hbody := (htidy.bodies f).symm.trans hbody'
  -- the tables in front of the check, behind it and in front of the body
  have htidy₁ := hs.toParsed.tidy.run before
  have huntouched₁ := untouched_run hs hbody before hs.toParsed.tidy hbefore
  have hfunction : ((s.run before).1.functions f) = s.1.functions f := huntouched₁.function
  have hchecked₂ : Checked f body ((s.run before).advance (.checkFunction scopeId f)) := by
    refine checked_checkFunction (by rw [hfunction]; exact hbody) (fun i hi name => ?_)
      (by rw [hfunction]; exact hs.unchecked f body hbody) scopeId
    rw [huntouched₁.scopes i hi]
    exact hs.identifiers i name
  have htables₂ := (kept_checkFunction (s.run before).1 (s.run before).2.2 scopeId f).types
  have huntouched₃ := untouched_run hs hbody after (htidy₁.advance (.checkFunction scopeId f)) hafter
  have hrun : s.run (before ++ .checkFunction scopeId f :: after) =
      ((s.run before).advance (.checkFunction scopeId f)).run after := by
    unfold run
    rw [List.foldl_append, List.foldl_cons]
  rw [hrun] at hcomes hbody' htidy ⊢
  generalize hs' : ((s.run before).advance (.checkFunction scopeId f)).run after = s' at *
  have hchecked := hchecked₂.of_untouched huntouched₃
  have htables : SameTables s.1 s'.1 := (huntouched₁.tables.trans htables₂).trans huntouched₃.tables
  have hstart := open_bodyStart hs hbody htables hchecked
  have hglobals : GlobalsOnly s.bodyScopes (s'.bodyStart f).ast := by
    refine htidy.globals.of_scopes ?_
    rw [ast_bodyStart]
    rfl
  have hbottom : (s'.1.functions f).returnType.Valid →
      (s'.1.functions f).returnOffset = (s'.bodyStart f).currentFrameOffset ∧
      (s'.bodyStart f).currentFrameOffset =
        -(alignUp (s.1.sizeOfType (s'.1.functions f).returnType) 8 : ℤ) := by
    intro hvalid
    have hframe : (s'.bodyStart f).currentFrameOffset =
        -(alignUp (s'.1.sizeOfType (s'.1.functions f).returnType) 8 : ℤ) := by
      unfold bodyStart
      rw [frameOffset_prologue, if_pos hvalid]
      exact Int.zero_sub _
    have hsizes := htables.sizeOfType
    rw [hframe, hchecked.result hvalid, hsizes]
    exact ⟨rfl, rfl⟩
  obtain ⟨live, rest, hopen⟩ := hcomes.open hstart
  have hscope : body.scopeId ∈ s.bodyScopes := by
    refine ⟨f, body, hbody, ?_⟩
    cases body
    exact List.mem_cons_self ..
  obtain ⟨hin, hglobals'⟩ := hcomes.globalsOnly hstart.inner hscope hglobals
  refine ⟨storageApart_of_open hs hopen hglobals' hbottom, fun frame hnext => ?_⟩
  obtain ⟨-, hglobals''⟩ := InBodies.generateStatement frame statement
    (fun i hi => hopen.inner i (List.mem_append_left _ hi)) c hin hglobals'
  exact storageApart_of_open hs (hopen.later hnext) hglobals'' hbottom

/-- A file with `fun start(a: int): int { x: int; while a { y: int; x; } return x; }` -/
def nestedProgram : Generation :=
  ({ (((AST.initial.createScope globalScope).2.createScope 1).2.createScope 2).2 with
      functionsUsed := 12
      functions := fun f => (AST.nativeFunctions ++
        ([{ name := "start", parameters := [{ name := "a", typeString := "int" }],
            returnTypeString := "int",
            body := some (.mk 2 [.varDeclaration "int" "x" none 0,
              .while (.identifier "a" 0)
                (.mk 3 [.varDeclaration "int" "y" none 0, .expression (.identifier "x" 0) 0]) 0,
              .return (some (.identifier "x" 0)) 0]) }] : List ASTFunction)).getD f {} }, {}, {})

theorem body_nestedProgram {f : ℕ} {body : ASTBody}
    (hbody : (nestedProgram.1.functions f).body = some body) : f = 11 := by
  have hnatives : ∀ f < 11, (nestedProgram.1.functions f).body.isNone = true := by decide
  rcases Nat.lt_trichotomy f 11 with hlt | rfl | hgt
  · have hnone := hnatives f hlt
    rw [hbody] at hnone
    cases hnone
  · rfl
  · have hnone : nestedProgram.1.functions f = ({} : ASTFunction) :=
      List.getD_eq_default _ _ (show (AST.nativeFunctions ++ _).length ≤ f from hgt)
    rw [hnone] at hbody
    cases hbody

theorem mem_bodyScopes_nestedProgram {i : ScopeId} :
    i ∈ nestedProgram.bodyScopes ↔ i = 2 ∨ i = 3 := by
  constructor
  · rintro ⟨f, body, hbody, hi⟩
    obtain rfl := body_nestedProgram hbody
    cases hbody
    simpa [ASTBody.scopes, scopesOfStatements, scopesOfStatement] using hi
  · rintro (rfl | rfl)
    · exact ⟨11, _, rfl, by decide⟩
    · exact ⟨11, _, rfl, by decide⟩

theorem scopes_nestedProgram (i : ℕ) (hi : ¬ (i < 4)) :
    nestedProgram.1.scopes i = ({} : ScopeInfo) := by
  have hne : i ≠ 3 ∧ i ≠ 2 ∧ i ≠ 1 ∧ i ≠ 0 := by omega
  refine (Function.update_of_ne hne.1 _ _).trans ?_
  refine (Function.update_of_ne hne.2.1 _ _).trans ?_
  exact (Function.update_of_ne hne.2.2.1 _ _).trans (AST.initial_scopes hne.2.2.2)

theorem scoped_nestedProgram : nestedProgram.Scoped where
  identifiers := by
    intro (i : ℕ) name
    by_cases hi : i < 4
    · have hcases : i = 0 ∨ i = 1 ∨ i = 2 ∨ i = 3 := by omega
      rcases hcases with rfl | rfl | rfl | rfl <;> rfl
    · rw [scopes_nestedProgram i hi]
  scopeId := by
    intro i hi
    rcases mem_bodyScopes_nestedProgram.mp hi with rfl | rfl <;> rfl
  shared := by
    intro i hi
    rcases mem_bodyScopes_nestedProgram.mp hi with rfl | rfl <;> rfl
  outer := by
    intro (i : ℕ) hi
    obtain ⟨htwo, hthree⟩ : i ≠ 2 ∧ i ≠ 3 := not_or.mp (mt mem_bodyScopes_nestedProgram.mpr hi)
    have hsmall : (nestedProgram.1.scopes i).scopeId < 2 ∧ (nestedProgram.1.scopes i).parent < 2 ∧
        (nestedProgram.1.scopes i).sharedScopes = [] := by
      by_cases hlt : i < 4
      · have hcases : i = 0 ∨ i = 1 := by omega
        rcases hcases with rfl | rfl
        · exact ⟨by decide, by decide, rfl⟩
        · exact ⟨by decide, by decide, rfl⟩
      · rw [scopes_nestedProgram i hlt]
        exact ⟨by decide, by decide, rfl⟩
    obtain ⟨hid, hparent, hshared⟩ := hsmall
    refine ⟨fun hmem => ?_, fun hmem => ?_, fun j hj => ?_⟩
    · rcases mem_bodyScopes_nestedProgram.mp hmem with heq | heq <;>
        exact absurd hid (by rw [heq]; decide)
    · rcases mem_bodyScopes_nestedProgram.mp hmem with heq | heq <;>
        exact absurd hparent (by rw [heq]; decide)
    · rw [hshared] at hj
      cases hj
  own := by
    intro f g body body' hne hbody hbody'
    exact absurd ((body_nestedProgram hbody).trans (body_nestedProgram hbody').symm) hne
  nested := by
    intro f body hbody
    obtain rfl := body_nestedProgram hbody
    cases hbody
    refine ⟨?_, ?_⟩
    · rw [mem_bodyScopes_nestedProgram]
      decide
    · refine ⟨nofun, trivial, ⟨?_, ⟨.inr (by decide), nofun, trivial, nofun, trivial, trivial⟩, nofun, trivial,
        trivial⟩⟩
      decide
  unchecked := by
    intro f body hbody
    obtain rfl := body_nestedProgram hbody
    rfl

/-- In the loop: the generator is behind the declaration of `y`. -/
theorem storage_apart_nested : ∃ statement c,
    (nestedProgram.run [.checkFunction 1 11]).Compiles 11 statement c ∧
      c.currentScopeId = 3 ∧
      StorageApart ((nestedProgram.run [.checkFunction 1 11]).1.functions 11) c := by
  have hcompiles : ∃ statement c, (nestedProgram.run [.checkFunction 1 11]).Compiles 11 statement c ∧
      c.currentScopeId = 3 := by
    refine ⟨_, _, ⟨⟨by decide, by decide⟩, _, rfl, .later ?_ (.inside (.loop ?_) (.later ?_
      (.here _ _ _ _)))⟩, ?_⟩
    · decide
    · decide
    · decide
    · decide
  obtain ⟨statement, c, hcompiles, hscope⟩ := hcompiles
  exact ⟨statement, c, hcompiles, hscope, (storage_apart scoped_nestedProgram
    (List.forall_mem_nil _) (List.forall_mem_nil _) hcompiles).1⟩

end Generation

end TinCompiler
