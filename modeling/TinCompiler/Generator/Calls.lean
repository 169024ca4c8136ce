import TinCompiler.Generator.CallSites
import TinCompiler.Generator.Tables

/-!
# The calls of a function

`sitesOfBody` lists the calls of a body with the scopes that they are in, in the order in which
their code is emitted; what is behind a `break`, a `continue` or a `return` has no code.  The
code of a function has a call for each of them (`CompilesAt`), whatever pushes are taken away
and whatever jumps are given their targets meanwhile.
-/

namespace TinCompiler

open GeneratorM

/-- A call in the source: its scope and the name of the function. -/
abbrev CallSite := ScopeId × String

/-! ## The calls in the source -/

/-- Nothing behind the statement is generated. -/
def ASTStatement.leaves : ASTStatement → Bool
  | .break _ | .continue _ | .return .. => true
  | _ => false

def sitesOf (scopeId : ScopeId) (e : ASTExpression) : List CallSite :=
  (callNames e).map fun name => (scopeId, name)

def sitesOfValue (scopeId : ScopeId) (e : Option ASTExpression) : List CallSite :=
  (e.map (sitesOf scopeId)).getD []

mutual

/-- The calls of a body in the order of the code. -/
def sitesOfBody : ASTBody → List CallSite
  | .mk scopeId statements => sitesOfStatements scopeId statements

def sitesOfStatements (scopeId : ScopeId) : List ASTStatement → List CallSite
  | [] => []
  | statement :: rest =>
      sitesOfStatement scopeId statement ++
        if statement.leaves then [] else sitesOfStatements scopeId rest

def sitesOfStatement (scopeId : ScopeId) : ASTStatement → List CallSite
  | .expression e _ => sitesOf scopeId e
  | .varDeclaration _ _ e _ => sitesOfValue scopeId e
  | .while condition body _ => sitesOf scopeId condition ++ sitesOfBody body
  | .ifElse condition body none _ => sitesOf scopeId condition ++ sitesOfBody body
  | .ifElse condition body (some elseBody) _ =>
      sitesOf scopeId condition ++ (sitesOfBody body ++ sitesOfBody elseBody)
  | .return e _ => sitesOfValue scopeId e
  | .globalDeclaration .. | .constDeclaration .. | .break _ | .continue _ => []

end

theorem sitesOfStatements_cons (scopeId : ScopeId) (statement : ASTStatement)
    (rest : List ASTStatement) : sitesOfStatements scopeId (statement :: rest) =
      sitesOfStatement scopeId statement ++
        if statement.leaves then [] else sitesOfStatements scopeId rest := rfl

/-! ## Computations that add calls -/

/-- The code is linked, and the jumps that are still open have immediates. -/
structure Patchable (c : GeneratorContext) : Prop where
  linked : ∃ ops, Linked c.piece ops
  breaks : ∀ loop ∈ c.loopScopes, ∀ i ∈ loop.breaksToResolve, c.piece.ImmAt i

/-- From the context `c` on, `x` emits calls of the functions that are found at some of `sites`,
in this order; at all of them where nothing is given up. -/
structure GeneratorM.CompilesAt {α : Type} (x : GeneratorM α) (c : GeneratorContext)
    (sites : List CallSite) : Prop where
  patchable : Patchable (x c).2
  imms : ∀ i, c.piece.ImmAt i → (x c).2.piece.ImmAt i
  functions : (x c).2.ast.functions = c.ast.functions
  found : ∀ name scopeId, (x c).2.ast.findFunction name scopeId = c.ast.findFunction name scopeId
  pieces : (x c).2.bytecode.pieces = c.bytecode.pieces
  abandoned : c.abandoned <+: (x c).2.abandoned
  calls : ∃ compiled added, compiled.Sublist sites ∧
    ((x c).2.abandoned = c.abandoned → compiled = sites) ∧
    List.Forall₂ (fun (site : CallSite) (rel : ℕ × ℕ) =>
      c.ast.findFunction site.2 site.1 = some rel.1) compiled added ∧
    (x c).2.piece.relocations = c.piece.relocations ++ added

namespace GeneratorM.CompilesAt

variable {α β : Type} {x : GeneratorM α} {f : α → GeneratorM β} {c : GeneratorContext}
  {sites sites' : List CallSite}

theorem bind (hx : x.CompilesAt c sites) (hf : (f (x c).1).CompilesAt (x c).2 sites') :
    (x >>= f).CompilesAt c (sites ++ sites') where
  patchable := hf.patchable
  imms := fun i hi => hf.imms i (hx.imms i hi)
  functions := hf.functions.trans hx.functions
  found := fun name scopeId => (hf.found name scopeId).trans (hx.found name scopeId)
  pieces := hf.pieces.trans hx.pieces
  abandoned := hx.abandoned.trans hf.abandoned
  calls := by
    obtain ⟨compiled, added, hsub, hall, hfound, hrel⟩ := hx.calls
    obtain ⟨compiled', added', hsub', hall', hfound', hrel'⟩ := hf.calls
    refine ⟨compiled ++ compiled', added ++ added', hsub.append hsub', fun hsame => ?_, ?_, ?_⟩
    · have hfirst : (x c).2.abandoned = c.abandoned :=
        (hsame ▸ hf.abandoned).eq_of_length_le hx.abandoned.length_le
      rw [hall hfirst, hall' (hsame.trans hfirst.symm)]
    · simp only [hx.found] at hfound'
      exact List.rel_append hfound hfound'
    · rw [bind_apply, hrel', hrel, List.append_assoc]

/-- What is missing at the end has been given up. -/
theorem shortened (h : x.CompilesAt c sites) (hsub : sites.Sublist sites')
    (hlong : c.abandoned.length < (x c).2.abandoned.length) : x.CompilesAt c sites' := by
  obtain ⟨compiled, added, hcompiled, -, hrest⟩ := h.calls
  refine { h with calls := ⟨compiled, added, hcompiled.trans hsub, fun hsame => ?_, hrest⟩ }
  rw [hsame] at hlong
  exact absurd hlong (Nat.lt_irrefl _)

/-- The piece and the functions that are found are the same. -/
theorem quiet (h : Patchable c) (hpiece : (x c).2.piece = c.piece)
    (hloops : ∀ loop ∈ (x c).2.loopScopes, ∀ i ∈ loop.breaksToResolve, c.piece.ImmAt i)
    (hfunctions : (x c).2.ast.functions = c.ast.functions)
    (hfound : ∀ name scopeId,
      (x c).2.ast.findFunction name scopeId = c.ast.findFunction name scopeId)
    (hpieces : (x c).2.bytecode.pieces = c.bytecode.pieces)
    (habandoned : c.abandoned <+: (x c).2.abandoned) : x.CompilesAt c [] :=
  ⟨⟨by rw [hpiece]; exact h.linked, by rw [hpiece]; exact hloops⟩, fun i hi => by rwa [hpiece],
    hfunctions, hfound, hpieces, habandoned, [], [], .refl _, fun _ => rfl, .nil, by
      rw [hpiece, List.append_nil]⟩

theorem setScope (h : Patchable c) (scopeId : ScopeId) : (setScope scopeId).CompilesAt c [] :=
  quiet h rfl h.breaks rfl (fun _ _ => rfl) rfl List.prefix_rfl

/-- The calls of an expression are in the current scope. -/
theorem ofCalls {names : List String} (h : Patchable c) (hx : x.CallsAt c names True) :
    x.CompilesAt c (names.map fun name => (c.currentScopeId, name)) := by
  obtain ⟨compiled, functions, hsub, hall, hfound, hextends⟩ := hx.calls
  obtain ⟨ops, hlinked⟩ := h.linked
  obtain ⟨hlinked', himms⟩ := hextends.linked ops hlinked
  obtain ⟨added, hrel, hfst⟩ := hextends.relocations
  refine ⟨⟨hlinked', fun loop hloop i hi => himms i (h.breaks loop ?_ i hi)⟩, himms,
    by rw [hx.framed.ast], fun name scopeId => by rw [hx.framed.ast], hx.pieces,
    hx.framed.abandoned, compiled.map fun name => (c.currentScopeId, name), added, hsub.map _,
    fun hsame => by rw [hall trivial hsame], ?_, hrel⟩
  · rwa [hx.framed.loopScopes] at hloop
  · rw [List.forall₂_map_left_iff]
    rw [← hfst, List.forall₂_map_right_iff] at hfound
    exact hfound

end GeneratorM.CompilesAt

/-- `x` compiles calls in the current scope, which `x` does not leave. -/
structure GeneratorM.CompilesIn {α : Type} (x : GeneratorM α) (c : GeneratorContext)
    (sites : ScopeId → List CallSite) : Prop where
  compiles : x.CompilesAt c (sites c.currentScopeId)
  scope : (x c).2.currentScopeId = c.currentScopeId

/-! ## Declarations and the search for functions -/

theorem AST.functions_addVariable {ast ast' : AST} {kind : IdentifierKind} {name : String}
    {scopeId : ScopeId} {type : TypeId} {offset : ℤ} {statement : Option ASTStatement}
    (h : ast.addVariable kind name scopeId type offset statement = some ast') :
    ast'.functions = ast.functions := by
  unfold AST.addVariable at h
  dsimp only at h
  split at h
  · cases h
  · cases h
    rfl

/-- Only the names of functions matter. -/
theorem AST.findFunction_congr {ast ast' : AST} (hsame : SameTables ast ast')
    (hfunctions : ∀ i, (ast'.scopes i).functions = (ast.scopes i).functions)
    (hnames : ∀ f, (ast'.functions f).name = (ast.functions f).name) (name : String)
    (scopeId : ScopeId) : ast'.findFunction name scopeId = ast.findFunction name scopeId := by
  unfold AST.findFunction
  simp only [hnames]
  exact AST.search_congr hsame.scopesUsed hsame.sharedScopes hsame.scopeId hsame.parent
    (fun i => by rw [hfunctions i]) scopeId

theorem AST.findFunction_addVariable {ast ast' : AST} {kind : IdentifierKind} {name : String}
    {scopeId : ScopeId} {type : TypeId} {offset : ℤ} {statement : Option ASTStatement}
    (h : ast.addVariable kind name scopeId type offset statement = some ast')
    (function : String) (start : ScopeId) :
    ast'.findFunction function start = ast.findFunction function start := by
  refine AST.findFunction_congr (SameTables.addVariable h) (fun i => ?_)
    (fun f => by rw [AST.functions_addVariable h]) function start
  unfold AST.addVariable at h
  dsimp only at h
  split at h
  · cases h
  · cases h
    by_cases heq : i = scopeId
    · subst heq
      simp
    · simp [heq]

/-! ## Computations that stay in their scope -/

namespace GeneratorM.CompilesIn

variable {α β : Type} {x : GeneratorM α} {f : α → GeneratorM β} {c : GeneratorContext}
  {sites sites' : ScopeId → List CallSite}

theorem bind (hx : x.CompilesIn c sites) (hf : (f (x c).1).CompilesIn (x c).2 sites') :
    (x >>= f).CompilesIn c fun scopeId => sites scopeId ++ sites' scopeId where
  compiles := hx.compiles.bind (hx.scope ▸ hf.compiles)
  scope := hf.scope.trans hx.scope

/-- Code without calls in front. -/
theorem front (hx : x.CompilesIn c fun _ => []) (hf : (f (x c).1).CompilesIn (x c).2 sites) :
    (x >>= f).CompilesIn c sites := hx.bind hf

/-- Code without calls behind. -/
theorem back (hx : x.CompilesIn c sites) (hf : (f (x c).1).CompilesIn (x c).2 fun _ => []) :
    (x >>= f).CompilesIn c sites := by
  have hbind := hx.bind hf
  simpa only [List.append_nil] using hbind

theorem patchable (hx : x.CompilesIn c sites) : Patchable (x c).2 := hx.compiles.patchable

theorem ofExpression (h : Patchable c) (e : ASTExpression) :
    (generateExpression e).CompilesIn c (sitesOf · e) :=
  ⟨.ofCalls h (.generateExpression e c), (CallsAt.generateExpression e c).framed.currentScopeId⟩

theorem callless (h : Patchable c) (hx : x.Callless) : x.CompilesIn c fun _ => [] :=
  ⟨.ofCalls h (.callless hx), (hx.framed c).currentScopeId⟩

/-- Code without calls from this context on. -/
theorem emits (h : Patchable c) (hframed : SameFrame c (x c).2)
    (hpieces : (x c).2.bytecode.pieces = c.bytecode.pieces)
    (hpiece : CodeExtends c.piece (x c).2.piece []) : x.CompilesIn c fun _ => [] :=
  ⟨.ofCalls h ⟨hframed, hpieces, [], [], .refl _, fun _ _ => rfl, .nil, hpiece⟩,
    hframed.currentScopeId⟩

theorem withBlock (kind : BlockKind) (hx : x.CompilesIn c sites) :
    (withBlock kind x).CompilesIn c sites where
  compiles :=
    { patchable := ⟨hx.patchable.linked, hx.patchable.breaks⟩
      imms := hx.compiles.imms
      functions := hx.compiles.functions
      found := hx.compiles.found
      pieces := hx.compiles.pieces
      abandoned := hx.compiles.abandoned
      calls := hx.compiles.calls }
  scope := hx.scope

theorem setFrameOffset (h : Patchable c) (frame : ℤ) :
    (setFrameOffset frame).CompilesIn c fun _ => [] :=
  ⟨.quiet h rfl h.breaks rfl (fun _ _ => rfl) rfl List.prefix_rfl, rfl⟩

theorem recordStart (h : Patchable c) : recordStart.CompilesIn c fun _ => [] :=
  ⟨.quiet h rfl h.breaks rfl (fun _ _ => rfl) rfl List.prefix_rfl, rfl⟩

theorem releaseTo (h : Patchable c) (frame : ℤ) : (releaseTo frame).CompilesIn c fun _ => [] := by
  refine callless h (Callless.getContext.bind fun c => ?_)
  split
  · exact .emitIncr _
  · exact .pure _

theorem emitRet (h : Patchable c) :
    (emit fun piece => piece.emitRet).CompilesIn c fun _ => [] :=
  callless h (.emit fun piece => .emit piece rfl)

end GeneratorM.CompilesIn

/-! ## Jumps and loops -/

namespace GeneratorM.CompilesIn

variable {c : GeneratorContext}

theorem generateJz (h : Patchable c) : generateJz.CompilesIn c (fun _ => []) ∧
    (generateJz c).2.piece.ImmAt (generateJz c).1 :=
  have hjump := CodeExtends.emitJzReloc c.piece .a
  ⟨emits h ⟨rfl, rfl, rfl, rfl, rfl, rfl, rfl, List.prefix_rfl, List.prefix_rfl⟩ rfl hjump.1, hjump.2⟩

theorem generateJmp (h : Patchable c) : generateJmp.CompilesIn c (fun _ => []) ∧
    (generateJmp c).2.piece.ImmAt (generateJmp c).1 :=
  have hjump := CodeExtends.emitJmpReloc c.piece
  ⟨emits h ⟨rfl, rfl, rfl, rfl, rfl, rfl, rfl, List.prefix_rfl, List.prefix_rfl⟩ rfl hjump.1, hjump.2⟩

theorem fixJump (h : Patchable c) {reloc : ℕ} (hreloc : c.piece.ImmAt reloc) :
    (fixJump reloc).CompilesIn c fun _ => [] :=
  emits h (Framed.emit _ c) rfl (.fixJumpHere _ hreloc)

theorem pushLoop (h : Patchable c) : pushLoop.CompilesIn c fun _ => [] := by
  refine ⟨.quiet h rfl (fun loop hloop i hi => ?_) rfl (fun _ _ => rfl) rfl List.prefix_rfl, rfl⟩
  rcases List.mem_append.mp hloop with hloop | hloop
  · exact h.breaks loop hloop i hi
  · rw [List.mem_singleton.mp hloop] at hi
    cases hi

theorem popLoop (h : Patchable c) : popLoop.CompilesIn c fun _ => [] :=
  ⟨.quiet h rfl (fun loop hloop => h.breaks loop (List.mem_of_mem_dropLast hloop)) rfl
    (fun _ _ => rfl) rfl List.prefix_rfl, rfl⟩

/-- All breaks of a loop get their target. -/
theorem fixBreaks : ∀ {breaks : List ℕ} {c : GeneratorContext} (_ : Patchable c)
    (_ : ∀ i ∈ breaks, c.piece.ImmAt i),
    (emit fun piece => breaks.foldl BytecodePiece.fixJumpHere piece).CompilesIn c fun _ => []
  | [], c, h, _ => emits h (Framed.emit _ c) rfl (.refl _)
  | i :: breaks, c, h, hbreaks => by
      have hfix := fixJump h (hbreaks i (List.mem_cons_self ..))
      change GeneratorM.CompilesIn (TinCompiler.fixJump i >>= fun _ =>
        emit fun piece => breaks.foldl BytecodePiece.fixJumpHere piece) c fun _ => []
      exact hfix.front (fixBreaks hfix.patchable fun j hj =>
        hfix.compiles.imms j (hbreaks j (List.mem_cons_of_mem _ hj)))

theorem closeLoop (h : Patchable c) (index : ℕ) {reloc : ℕ} (hreloc : c.piece.ImmAt reloc) :
    (closeLoop index reloc).CompilesIn c fun _ => [] := by
  refine (callless h .getContext).front ?_
  rw [getContext_apply]
  split
  · exact callless h (.pure _)
  · next loop hloop =>
      have hjump : (emit fun piece => piece.emitJmp loop.continuePc).CompilesIn c fun _ => [] :=
        callless h (.emit fun piece => .emitJmp piece _)
      have hfix := fixJump hjump.patchable (hjump.compiles.imms _ hreloc)
      have hbreaks := fixBreaks hfix.patchable fun i hi => hfix.compiles.imms i
        (hjump.compiles.imms i (h.breaks loop (List.mem_of_getElem? hloop) i hi))
      exact hjump.front (hfix.front (hbreaks.front (popLoop hbreaks.patchable)))

end GeneratorM.CompilesIn

/-! ## Statements -/

/-- A statement emits its calls; the result says whether code behind it is generated. -/
structure GeneratorM.GeneratesAt (x : GeneratorM StatementResult) (c : GeneratorContext)
    (sites : ScopeId → List CallSite) (leaves : Bool) : Prop extends x.CompilesIn c sites where
  next : (x c).1 = .next → leaves = false
  stop : (x c).1 = .stop → leaves = true
  failed : (x c).1 = .failed → c.abandoned.length < (x c).2.abandoned.length

namespace GeneratorM.GeneratesAt

variable {α : Type} {x : GeneratorM α} {f : α → GeneratorM StatementResult}
  {y : GeneratorM StatementResult} {c : GeneratorContext} {sites sites' : ScopeId → List CallSite}
  {leaves : Bool}

theorem after (hx : x.CompilesIn c sites) (hf : (f (x c).1).GeneratesAt (x c).2 sites' leaves) :
    (x >>= f).GeneratesAt c (fun scopeId => sites scopeId ++ sites' scopeId) leaves where
  toCompilesIn := hx.bind hf.toCompilesIn
  next := hf.next
  stop := hf.stop
  failed := fun h => hx.compiles.abandoned.length_le.trans_lt (hf.failed h)

/-- Code without calls in front. -/
theorem front (hx : x.CompilesIn c fun _ => []) (hf : (f (x c).1).GeneratesAt (x c).2 sites leaves) :
    (x >>= f).GeneratesAt c sites leaves := after hx hf

/-- Code without calls behind. -/
theorem back (hx : x.CompilesIn c sites)
    (hf : (f (x c).1).GeneratesAt (x c).2 (fun _ => []) leaves) :
    (x >>= f).GeneratesAt c sites leaves := by
  have hafter := after hx hf
  simpa only [List.append_nil] using hafter

theorem read {f : GeneratorContext → GeneratorM StatementResult} (h : Patchable c)
    (hf : (f c).GeneratesAt c sites leaves) : (getContext >>= f).GeneratesAt c sites leaves :=
  front (.callless h .getContext) hf

theorem done (h : Patchable c) : (pure .next : GeneratorM StatementResult).GeneratesAt c (fun _ => []) false :=
  ⟨.callless h (.pure _), fun _ => rfl, nofun, nofun⟩

theorem left (h : Patchable c) : (pure .stop : GeneratorM StatementResult).GeneratesAt c (fun _ => []) true :=
  ⟨.callless h (.pure _), nofun, fun _ => rfl, nofun⟩

/-- What is abandoned may miss any calls. -/
theorem abandoned (hx : y.CompilesIn c fun _ => [])
    (hlong : c.abandoned.length < (y c).2.abandoned.length)
    (hnext : (y c).1 = .next → leaves = false) (hstop : (y c).1 ≠ .stop) :
    y.GeneratesAt c sites leaves :=
  ⟨⟨hx.compiles.shortened (List.nil_sublist _) hlong, hx.scope⟩, hnext,
    fun heq => absurd heq hstop, fun _ => hlong⟩

theorem failStatement (h : Patchable c) (location : SourceLocation) (message : String) :
    (failStatement location message).GeneratesAt c sites leaves := by
  refine abandoned (.callless h ((Callless.report _ _).bind fun _ =>
    (Callless.abandon _).bind fun _ => .pure _)) ?_ nofun nofun
  exact (List.length_append ▸ Nat.lt_succ_self _)

theorem skipStatement (h : Patchable c) (location : SourceLocation) (message : String) :
    (skipStatement location message).GeneratesAt c sites false := by
  refine abandoned (.callless h ((Callless.report _ _).bind fun _ =>
    (Callless.abandon _).bind fun _ => .pure _)) ?_ (fun _ => rfl) nofun
  exact (List.length_append ▸ Nat.lt_succ_self _)

theorem withBlock (kind : BlockKind) (hy : y.GeneratesAt c sites leaves) :
    (withBlock kind y).GeneratesAt c sites leaves :=
  ⟨hy.toCompilesIn.withBlock kind, hy.next, hy.stop, hy.failed⟩

/-- Nothing follows what has failed. -/
theorem ended {f : StatementResult → GeneratorM StatementResult} {leaves' : Bool}
    (hy : y.GeneratesAt c sites leaves') (hgoes : (y c).1 = .failed)
    (hf : f .failed = pure .failed) : (y >>= f).GeneratesAt c sites leaves := by
  have hend : (y >>= f) c = (.failed, (y c).2) := by
    rw [bind_apply, hgoes, hf]
    rfl
  refine ⟨hy.toCompilesIn.back ?_, ?_, ?_, fun _ => ?_⟩
  · rw [hgoes, hf]
    exact .callless hy.patchable (.pure _)
  · rw [hend]
    nofun
  · rw [hend]
    nofun
  · rw [hend]
    exact hy.failed hgoes

/-! ### Statements without bodies -/

theorem generateExpressionStatement (h : Patchable c) (e : ASTExpression) :
    (generateExpressionStatement e).GeneratesAt c (sitesOf · e) false := by
  have hexpression := CompilesIn.ofExpression h e
  have hpop := CompilesIn.callless hexpression.patchable
    (.popValue .invalid 0 (generateExpression e c).1)
  exact back hexpression (front hpop (done hpop.patchable))

/-- The tables with a new identifier find the same functions. -/
theorem declare (h : Patchable c) {ast : AST} {kind : IdentifierKind} {name : String}
    {scopeId : ScopeId} {type : TypeId} {offset : ℤ} {statement : Option ASTStatement}
    (hadd : c.ast.addVariable kind name scopeId type offset statement = some ast) :
    (modifyContext fun c => { c with ast := ast }).CompilesIn c fun _ => [] :=
  ⟨.quiet h rfl h.breaks (AST.functions_addVariable hadd) (AST.findFunction_addVariable hadd) rfl
    List.prefix_rfl, rfl⟩

theorem generateGlobalDeclaration (h : Patchable c) (type name : String) (location : SourceLocation) :
    (generateGlobalDeclaration type name location).GeneratesAt c (fun _ => []) false := by
  refine read h ?_
  dsimp only
  split
  · have hdata : (modifyContext fun c' => { c' with bytecode := (c.bytecode.appendData
        (c.ast.sizeOfType (c.ast.convertFullType type c.currentScopeId))).2 }).CompilesIn c
        fun _ => [] :=
      ⟨.quiet h rfl h.breaks rfl (fun _ _ => rfl) rfl List.prefix_rfl, rfl⟩
    refine front hdata ?_
    split
    · exact failStatement hdata.patchable _ _
    · next hadd =>
        have hdeclare := declare hdata.patchable hadd
        exact front hdeclare (done hdeclare.patchable)
  · exact failStatement h _ _

theorem generateConstDeclaration (h : Patchable c) (type name : String) (location : SourceLocation)
    (statement : ASTStatement) :
    (generateConstDeclaration type name location statement).GeneratesAt c (fun _ => []) false := by
  refine read h ?_
  dsimp only
  split
  · split
    · exact skipStatement h _ _
    · next hadd =>
        have hdeclare := declare h hadd
        exact front hdeclare (done hdeclare.patchable)
  · exact failStatement h _ _

theorem generateInitializer (h : Patchable c) (e : Option ASTExpression) (location : SourceLocation)
    (type : TypeId) (offset : ℤ) :
    (generateInitializer e location type offset).GeneratesAt c (sitesOfValue · e) false := by
  cases e with
  | some e =>
      have hexpression := CompilesIn.ofExpression h e
      refine back hexpression ?_
      split
      · have hcast := CompilesIn.callless hexpression.patchable
          (.performCast (generateExpression e c).1 type)
        refine front hcast ?_
        split
        · have hpop := CompilesIn.callless hcast.patchable (.popValue .bp offset type)
          exact front hpop (done hpop.patchable)
        · exact read hcast.patchable (failStatement hcast.patchable _ _)
      · refine abandoned (.callless hexpression.patchable ((Callless.abandon _).bind fun _ =>
          .pure _)) ?_ nofun nofun
        exact (List.length_append ▸ Nat.lt_succ_self _)
  | none =>
      refine read h ?_
      have hzero : (emit fun piece => (((piece.emitLi .b offset).emitArithmetic .add .b .bp).emitLi .a
          (c.ast.sizeOfType type)).emitMemzero .b .a).CompilesIn c fun _ => [] :=
        .callless h (.emit fun piece => (((CodeExtends.emitLi piece .b offset).andThen
          (.emit _ rfl)).andThen (.emitLi _ .a _)).andThen (.emit _ rfl))
      exact front hzero (done hzero.patchable)

theorem generateVarDeclaration (h : Patchable c) (type name : String) (e : Option ASTExpression)
    (location : SourceLocation) :
    (generateVarDeclaration type name e location).GeneratesAt c (sitesOfValue · e) false := by
  refine read h ?_
  dsimp only
  split
  · have hreserve := CompilesIn.callless h (.emitIncr
      (-(alignUp (c.ast.sizeOfType (c.ast.convertFullType type c.currentScopeId)) 8 : ℤ)))
    have hframe := CompilesIn.setFrameOffset hreserve.patchable (c.currentFrameOffset -
      alignUp (c.ast.sizeOfType (c.ast.convertFullType type c.currentScopeId)) 8)
    refine front hreserve (front hframe ?_)
    split
    · exact skipStatement hframe.patchable _ _
    · next hadd =>
        have hdeclare := declare hframe.patchable hadd
        exact front hdeclare (generateInitializer hdeclare.patchable e location _ _)
  · exact failStatement h _ _

/-! ### Statements that leave -/

theorem generateContinue (h : Patchable c) (frame : ℤ) (location : SourceLocation) :
    (generateContinue frame location).GeneratesAt c (fun _ => []) true := by
  refine read h ?_
  split
  · exact failStatement h _ _
  · next loop _ =>
      have hrelease := CompilesIn.releaseTo h loop.frameOffset
      have hjump : (emit fun piece => piece.emitJmp loop.continuePc).CompilesIn
          (releaseTo loop.frameOffset c).2 fun _ => [] :=
        .callless hrelease.patchable (.emit fun piece => .emitJmp piece _)
      have hframe := CompilesIn.setFrameOffset hjump.patchable frame
      exact front hrelease (front hjump (front hframe (left hframe.patchable)))

/-- The jump of a `break` stays open until the loop is closed. -/
theorem openBreak (h : Patchable c) {loop : LoopScope} (hloop : c.loopScopes.getLast? = some loop) :
    (modifyContext fun c =>
      let jump := c.piece.emitJmpReloc
      { c.withPiece jump.2 with
        loopScopes := c.loopScopes.dropLast ++
          [{ loop with breaksToResolve := loop.breaksToResolve ++ [jump.1] }] }).CompilesIn c
      fun _ => [] := by
  obtain ⟨hjmp, hreloc⟩ := CompilesIn.generateJmp h
  have hbreaks := hjmp.patchable.breaks
  refine ⟨{ hjmp.compiles with patchable := ⟨hjmp.patchable.linked, fun other hother i hi => ?_⟩ },
    hjmp.scope⟩
  rcases List.mem_append.mp hother with hother | hother
  · exact hbreaks other (List.mem_of_mem_dropLast hother) i hi
  · rw [List.mem_singleton.mp hother] at hi
    rcases List.mem_append.mp hi with hi | hi
    · exact hbreaks loop (List.mem_of_getLast? hloop) i hi
    · rw [List.mem_singleton.mp hi]
      exact hreloc

theorem generateBreak (h : Patchable c) (frame : ℤ) (location : SourceLocation) :
    (generateBreak frame location).GeneratesAt c (fun _ => []) true := by
  refine read h ?_
  split
  · exact failStatement h _ _
  · next loop hloop =>
      have hrelease := CompilesIn.releaseTo h loop.frameOffset
      have hloops : (releaseTo loop.frameOffset c).2.loopScopes = c.loopScopes := by
        unfold TinCompiler.releaseTo
        rw [bind_apply, ite_apply]
        split <;> rfl
      have hopen := openBreak hrelease.patchable (hloops ▸ hloop)
      have hframe := CompilesIn.setFrameOffset hopen.patchable frame
      exact front hrelease (front hopen (front hframe (left hframe.patchable)))

theorem generateResult (h : Patchable c) (e : ASTExpression) (location : SourceLocation) :
    (generateResult e location).GeneratesAt c (sitesOf · e) false := by
  refine read h ?_
  split
  · have hexpression := CompilesIn.ofExpression h e
    have hcast := CompilesIn.callless hexpression.patchable
      (.performCast (generateExpression e c).1 c.function.returnType)
    refine back hexpression (front hcast ?_)
    split
    · have hpop := CompilesIn.callless hcast.patchable
        (.popValue .bp c.function.returnOffset (generateExpression e c).1)
      exact front hpop (done hpop.patchable)
    · exact failStatement hcast.patchable _ _
  · exact failStatement h _ _

/-- Behind the value of a `return`. -/
theorem finishReturn (h : Patchable c) (frame : ℤ) : (do
    releaseTo 0
    emit fun piece => piece.emitRet
    setFrameOffset frame
    return .stop : GeneratorM StatementResult).GeneratesAt c (fun _ => []) true := by
  have hrelease := CompilesIn.releaseTo h 0
  have hret := CompilesIn.emitRet hrelease.patchable
  have hframe := CompilesIn.setFrameOffset hret.patchable frame
  exact front hrelease (front hret (front hframe (left hframe.patchable)))

theorem generateReturn (h : Patchable c) (frame : ℤ) (e : Option ASTExpression)
    (location : SourceLocation) :
    (generateReturn frame e location).GeneratesAt c (sitesOfValue · e) true := by
  cases e with
  | none => exact front (.callless h (.pure _)) (finishReturn h frame)
  | some e =>
      have hresult := withBlock (.result (.return (some e) location)) (generateResult h e location)
      unfold TinCompiler.generateReturn
      dsimp only
      cases hgoes : (TinCompiler.withBlock (.result (.return (some e) location))
          (TinCompiler.generateResult e location) c).1 with
      | next =>
          refine back hresult.toCompilesIn ?_
          rw [hgoes, if_pos rfl]
          exact finishReturn hresult.patchable frame
      | stop => exact absurd (hresult.stop hgoes) (by simp)
      | failed => exact ended hresult hgoes rfl

/-! ### Statements with bodies -/

theorem generateCondition (h : Patchable c) (e : ASTExpression) (statement : String) :
    (generateCondition e statement).CompilesIn c (sitesOf · e) ∧
      ((generateCondition e statement c).1 = false →
        c.abandoned.length < (generateCondition e statement c).2.abandoned.length) := by
  have hexpression := CompilesIn.ofExpression h e
  have hcast := CompilesIn.callless hexpression.patchable
    (.performCast (generateExpression e c).1 .bool)
  have hboth := hexpression.compiles.abandoned.length_le.trans hcast.compiles.abandoned.length_le
  -- recording the block changes neither the result nor what is abandoned
  have hblock : ∀ x : GeneratorM Bool, x.CompilesIn c (sitesOf · e) ∧
      ((x c).1 = false → c.abandoned.length < (x c).2.abandoned.length) →
      (TinCompiler.withBlock (.condition e) x).CompilesIn c (sitesOf · e) ∧
        ((TinCompiler.withBlock (.condition e) x c).1 = false →
          c.abandoned.length < (TinCompiler.withBlock (.condition e) x c).2.abandoned.length) :=
    fun x hx => ⟨hx.1.withBlock _, hx.2⟩
  unfold TinCompiler.generateCondition
  refine hblock _ ?_
  cases hgoes : (performCast (generateExpression e c).1 .bool (generateExpression e c).2).1 with
  | true =>
      have hpop := CompilesIn.callless hcast.patchable (.emitPop .a)
      refine ⟨hexpression.back (hcast.front ?_), fun hfalse => ?_⟩
      · rw [hgoes]
        exact hpop.front (.callless hpop.patchable (.pure _))
      · rw [bind_apply, bind_apply, hgoes] at hfalse
        cases hfalse
  | false =>
      refine ⟨hexpression.back (hcast.front ?_), fun _ => ?_⟩
      · rw [hgoes]
        exact .callless hcast.patchable (Callless.getContext.bind fun _ =>
          (Callless.report _ _).bind fun _ => (Callless.abandon _).bind fun _ => .pure _)
      · rw [bind_apply, bind_apply, hgoes]
        refine Nat.lt_of_le_of_lt hboth ?_
        exact List.length_append ▸ Nat.lt_succ_self _

/-- A statement with a condition. -/
theorem conditional (h : Patchable c) (e : ASTExpression) (statement : String)
    (hy : y.GeneratesAt (TinCompiler.generateCondition e statement c).2 sites false) :
    (do
      if ← TinCompiler.generateCondition e statement then y
      else return .failed : GeneratorM StatementResult).GeneratesAt c
      (fun scopeId => sitesOf scopeId e ++ sites scopeId) false := by
  obtain ⟨hcondition, hfalse⟩ := generateCondition h e statement
  cases hgoes : (TinCompiler.generateCondition e statement c).1 with
  | true =>
      refine after hcondition ?_
      rw [hgoes]
      exact hy
  | false =>
      have hend : (do
          if ← TinCompiler.generateCondition e statement then y
          else return .failed : GeneratorM StatementResult) c =
            (.failed, (TinCompiler.generateCondition e statement c).2) := by
        rw [bind_apply, hgoes]
        rfl
      have hall := hcondition.back (f := fun accepted => if accepted = true then y else
        (pure .failed : GeneratorM StatementResult)) (by
          rw [hgoes]
          exact .callless hcondition.patchable (.pure _))
      refine ⟨⟨hall.compiles.shortened (List.sublist_append_left _ _) ?_, hall.scope⟩, ?_, ?_,
        fun _ => ?_⟩
      · rw [hend]
        exact hfalse hgoes
      · rw [hend]
        nofun
      · rw [hend]
        nofun
      · rw [hend]
        exact hfalse hgoes

end GeneratorM.GeneratesAt

/-- The end of a body. -/
theorem GeneratorM.CompilesAt.closeBody {c : GeneratorContext} (h : Patchable c) (frame : ℤ)
    (scopeId : ScopeId) (completed : Bool) :
    GeneratorM.CompilesAt (if completed = true then do
        releaseTo frame
        setFrameOffset frame
        TinCompiler.setScope scopeId
        return true
      else do
        TinCompiler.setScope scopeId
        return false : GeneratorM Bool) c [] ∧
      ((if completed = true then do
        releaseTo frame
        setFrameOffset frame
        TinCompiler.setScope scopeId
        return true
      else do
        TinCompiler.setScope scopeId
        return false : GeneratorM Bool) c).2.currentScopeId = scopeId := by
  cases completed with
  | true =>
      have hrelease := CompilesIn.releaseTo h frame
      have hframe := CompilesIn.setFrameOffset hrelease.patchable frame
      have hset := setScope hframe.patchable scopeId
      exact ⟨hrelease.compiles.bind (hframe.compiles.bind (hset.bind
        (CompilesIn.callless hset.patchable (.pure _)).compiles)), rfl⟩
  | false =>
      have hset := setScope h scopeId
      exact ⟨hset.bind (CompilesIn.callless hset.patchable (.pure _)).compiles, rfl⟩

namespace GeneratorM.CompilesIn

mutual

theorem generateBody : ∀ (body : ASTBody) {c : GeneratorContext} (_ : Patchable c),
    (generateBody body).CompilesIn c fun _ => sitesOfBody body
  | .mk scopeId statements, c, h => by
      have hscope : Patchable { c with currentScopeId := scopeId } := ⟨h.linked, h.breaks⟩
      have hstatements := generateStatements c.currentFrameOffset statements hscope
      have henter : (setScope scopeId).CompilesAt c [] := .setScope h scopeId
      have hclose := CompilesAt.closeBody hstatements.patchable c.currentFrameOffset c.currentScopeId
        (TinCompiler.generateStatements c.currentFrameOffset statements
          { c with currentScopeId := scopeId }).1
      have hread := (callless h .getContext).compiles
      have hsites : sitesOfBody (.mk scopeId statements) =
          [] ++ ([] ++ (sitesOfStatements scopeId statements ++ [])) := (List.append_nil _).symm
      refine ⟨?_, hclose.2⟩
      rw [hsites]
      exact hread.bind (henter.bind (hstatements.compiles.bind hclose.1))

theorem generateStatements (frame : ℤ) :
    ∀ (statements : List ASTStatement) {c : GeneratorContext} (_ : Patchable c),
      (generateStatements frame statements).CompilesIn c (sitesOfStatements · statements)
  | [], c, h => .callless h (.pure _)
  | statement :: rest, c, h => by
      have hstart := recordStart h
      have hstatement := generateStatement frame statement hstart.patchable
      unfold TinCompiler.generateStatements
      refine hstart.front ?_
      cases hgoes : (TinCompiler.generateStatement frame statement (TinCompiler.recordStart c).2).1 with
      | next =>
          have hrest := generateStatements frame rest hstatement.patchable
          have hsites : (sitesOfStatements · (statement :: rest)) = fun scopeId =>
              sitesOfStatement scopeId statement ++ sitesOfStatements scopeId rest := by
            funext scopeId
            rw [sitesOfStatements_cons, hstatement.next hgoes]
            rfl
          rw [hsites]
          refine hstatement.toCompilesIn.bind ?_
          rw [hgoes]
          exact hrest
      | stop =>
          simp only [sitesOfStatements_cons, hstatement.stop hgoes, if_true, List.append_nil]
          refine hstatement.toCompilesIn.back ?_
          rw [hgoes]
          exact .callless hstatement.patchable (.pure _)
      | failed =>
          have hend : (TinCompiler.generateStatement frame statement >>= fun result =>
              match result with
              | .next => TinCompiler.generateStatements frame rest
              | .stop => return true
              | .failed => return false).CompilesIn (TinCompiler.recordStart c).2
                (sitesOfStatement · statement) := by
            refine hstatement.toCompilesIn.back ?_
            rw [hgoes]
            exact .callless hstatement.patchable (.pure _)
          refine ⟨hend.compiles.shortened (List.sublist_append_left _ _) ?_, hend.scope⟩
          rw [bind_apply, hgoes]
          exact hstatement.failed hgoes

theorem generateStatement (frame : ℤ) :
    ∀ (statement : ASTStatement) {c : GeneratorContext} (_ : Patchable c),
      (generateStatement frame statement).GeneratesAt c (sitesOfStatement · statement)
        statement.leaves
  | .expression e location, c, h => by
      unfold TinCompiler.generateStatement
      exact .withBlock _ (.generateExpressionStatement h e)
  | .globalDeclaration type name _ location, c, h => by
      unfold TinCompiler.generateStatement
      exact .generateGlobalDeclaration h type name location
  | .constDeclaration type name e location, c, h => by
      unfold TinCompiler.generateStatement
      exact .generateConstDeclaration h type name location _
  | .varDeclaration type name e location, c, h => by
      unfold TinCompiler.generateStatement
      exact .withBlock _ (.generateVarDeclaration h type name e location)
  | .while condition body _, c, h => by
      have hloop := pushLoop h
      unfold TinCompiler.generateStatement
      refine GeneratesAt.front hloop (.conditional hloop.patchable condition _ ?_)
      have hcondition := (GeneratesAt.generateCondition hloop.patchable condition "while").1
      obtain ⟨hjz, hreloc⟩ := generateJz hcondition.patchable
      have hbody := generateBody body hjz.patchable
      have hclose := closeLoop hbody.patchable (TinCompiler.pushLoop c).1
        (hbody.compiles.imms _ hreloc)
      exact .front hjz (.back hbody (.front hclose (.done hclose.patchable)))
  | .ifElse condition body none _, c, h => by
      unfold TinCompiler.generateStatement
      refine .conditional h condition _ ?_
      have hcondition := (GeneratesAt.generateCondition h condition "if").1
      obtain ⟨hjz, hreloc⟩ := generateJz hcondition.patchable
      have hbody := generateBody body hjz.patchable
      have hfix := fixJump hbody.patchable (hbody.compiles.imms _ hreloc)
      exact .front hjz (.back hbody (.front hfix (.done hfix.patchable)))
  | .ifElse condition body (some elseBody) _, c, h => by
      unfold TinCompiler.generateStatement
      refine .conditional h condition _ ?_
      have hcondition := (GeneratesAt.generateCondition h condition "if").1
      obtain ⟨hjz, hreloc⟩ := generateJz hcondition.patchable
      have hbody := generateBody body hjz.patchable
      obtain ⟨hjmp, hrelocEnd⟩ := generateJmp hbody.patchable
      have hfix := fixJump hjmp.patchable (hjmp.compiles.imms _ (hbody.compiles.imms _ hreloc))
      have helse := generateBody elseBody hfix.patchable
      have hend := fixJump helse.patchable
        (helse.compiles.imms _ (hfix.compiles.imms _ hrelocEnd))
      exact .front hjz (.after hbody (.front hjmp (.front hfix
        (.back helse (.front hend (.done hend.patchable))))))
  | .break location, c, h => by
      unfold TinCompiler.generateStatement
      exact .generateBreak h frame location
  | .continue location, c, h => by
      unfold TinCompiler.generateStatement
      exact .generateContinue h frame location
  | .return e location, c, h => by
      unfold TinCompiler.generateStatement
      exact .generateReturn h frame e location

end

end GeneratorM.CompilesIn

end TinCompiler
