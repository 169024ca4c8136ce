import TinCompiler.Generator.Calls
import Mathlib.Data.List.GetD
import Mathlib.Data.List.Nodup

/-!
# Linking

The functions of a program are generated in any order, each into the next piece, and then
`apply_relocations` fills in the immediates of the calls.  What a call gets is decided by
the function that was found at the call: the number of its piece or the number of a native.
-/

namespace TinCompiler

open GeneratorM

/-! ## The calls in initial values -/

def sitesOfGlobal (scopeId : ScopeId) : ASTStatement → List CallSite
  | .globalDeclaration _ _ e _ => sitesOfValue scopeId e
  | _ => []

def sitesOfOwnGlobals (scopeId : ScopeId) (statements : List ASTStatement) : List CallSite :=
  statements.flatMap (sitesOfGlobal scopeId)

mutual

/-- The initial values of the globals of a body in the order of their code. -/
def sitesOfGlobals : ASTBody → List CallSite
  | .mk scopeId statements => sitesOfOwnGlobals scopeId statements ++ sitesOfNestedGlobals statements

def sitesOfNestedGlobals : List ASTStatement → List CallSite
  | [] => []
  | statement :: rest => sitesOfNestedGlobals rest ++ sitesOfStatementGlobals statement

def sitesOfStatementGlobals : ASTStatement → List CallSite
  | .ifElse _ body none _ => sitesOfGlobals body
  | .ifElse _ body (some elseBody) _ => sitesOfGlobals elseBody ++ sitesOfGlobals body
  | .while _ body _ => sitesOfGlobals body
  | _ => []

end

def sitesOfImport (functions : ℕ → ASTFunction) (imp : FileBody) : List CallSite :=
  sitesOfOwnGlobals imp.scopeId imp.statements ++ (sitesOfNestedGlobals imp.statements ++
    (imp.functions.reverse.filterMap fun f => (functions f).body).flatMap sitesOfGlobals)

/-- The calls in the code of a function. -/
def ASTFunction.sites (function : ASTFunction) (ast : AST) (body : ASTBody) : List CallSite :=
  (if function.name = "main" then ast.importBodies.flatMap (sitesOfImport ast.functions) else []) ++
    sitesOfBody body

namespace GeneratorM.CompilesIn

variable {c : GeneratorContext}

theorem setGlobal (h : Patchable c) (statement : ASTStatement) :
    (setGlobal statement).CompilesIn c (sitesOfGlobal · statement) := by
  cases statement with
  | globalDeclaration type name e location =>
      unfold TinCompiler.setGlobal
      refine (callless h .getContext).front ?_
      split
      · -- an unknown variable, whose value is not generated
        have habandon := callless h (.abandon location)
        refine ⟨habandon.compiles.shortened (List.nil_sublist _) ?_, habandon.scope⟩
        exact List.length_append ▸ Nat.lt_succ_self _
      · next identifier _ =>
          cases e with
          | none =>
              exact callless h (.emit fun piece => ((CodeExtends.emitDataptr piece .b _).andThen
                (.emitLi _ .a _)).andThen (.emit _ rfl))
          | some e =>
              have hexpression := ofExpression h e
              refine hexpression.back (callless hexpression.patchable ?_)
              split
              · split
                · exact (Callless.report _ _).bind fun _ => .abandon _
                · exact (Callless.emitDataptr _).bind fun _ => .popValue _ _ _
              · exact .abandon _
  | _ => exact callless h (.pure _)

theorem setGlobals (statements : List ASTStatement) : ∀ {c : GeneratorContext} (_ : Patchable c),
    (statements.forM TinCompiler.setGlobal).CompilesIn c (sitesOfOwnGlobals · statements) := by
  induction statements with
  | nil => exact fun h => callless h (.pure _)
  | cons statement statements ih =>
      intro c h
      have hset := setGlobal h statement
      exact hset.bind (ih hset.patchable)

end GeneratorM.CompilesIn

namespace GeneratorM.CompilesAt

variable {c : GeneratorContext}

theorem setOwnGlobals (h : Patchable c) (scopeId : ScopeId) (statements : List ASTStatement) :
    (setOwnGlobals scopeId statements).CompilesAt c (sitesOfOwnGlobals scopeId statements) := by
  have hscope := setScope h scopeId
  exact hscope.bind (CompilesIn.setGlobals statements hscope.patchable).compiles

mutual

theorem setGlobals : ∀ (body : ASTBody) {c : GeneratorContext} (_ : Patchable c),
    (setGlobals body).CompilesAt c (sitesOfGlobals body)
  | .mk scopeId statements, c, h => by
      unfold TinCompiler.setGlobals
      have hown := setOwnGlobals h scopeId statements
      exact hown.bind (setNestedGlobals statements hown.patchable)

theorem setNestedGlobals : ∀ (statements : List ASTStatement) {c : GeneratorContext}
    (_ : Patchable c), (setNestedGlobals statements).CompilesAt c (sitesOfNestedGlobals statements)
  | [], c, h => by
      unfold TinCompiler.setNestedGlobals
      exact (CompilesIn.callless h (.pure _)).compiles
  | statement :: rest, c, h => by
      unfold TinCompiler.setNestedGlobals
      have hrest := setNestedGlobals rest h
      exact hrest.bind (setStatementGlobals statement hrest.patchable)

theorem setStatementGlobals : ∀ (statement : ASTStatement) {c : GeneratorContext} (_ : Patchable c),
    (setStatementGlobals statement).CompilesAt c (sitesOfStatementGlobals statement)
  | .ifElse _ body none _, c, h => by
      unfold TinCompiler.setStatementGlobals
      exact setGlobals body h
  | .ifElse _ body (some elseBody) _, c, h => by
      unfold TinCompiler.setStatementGlobals
      have helse := setGlobals elseBody h
      exact helse.bind (setGlobals body helse.patchable)
  | .while _ body _, c, h => by
      unfold TinCompiler.setStatementGlobals
      exact setGlobals body h
  | .varDeclaration .., c, h => (CompilesIn.callless h (.pure _)).compiles
  | .globalDeclaration .., c, h => (CompilesIn.callless h (.pure _)).compiles
  | .constDeclaration .., c, h => (CompilesIn.callless h (.pure _)).compiles
  | .expression .., c, h => (CompilesIn.callless h (.pure _)).compiles
  | .break _, c, h => (CompilesIn.callless h (.pure _)).compiles
  | .continue _, c, h => (CompilesIn.callless h (.pure _)).compiles
  | .return .., c, h => (CompilesIn.callless h (.pure _)).compiles

end

/-- One after another, while the functions stay as they are. -/
theorem forM {α : Type} {f : α → GeneratorM Unit} {functions : ℕ → ASTFunction}
    {sites : α → List CallSite}
    (hf : ∀ a {c : GeneratorContext}, Patchable c → c.ast.functions = functions →
      (f a).CompilesAt c (sites a)) (l : List α) :
    ∀ {c : GeneratorContext} (_ : Patchable c) (_ : c.ast.functions = functions),
      (l.forM f).CompilesAt c (l.flatMap sites) := by
  induction l with
  | nil => exact fun h _ => (CompilesIn.callless h (.pure _)).compiles
  | cons a l ih =>
      intro c h hfunctions
      have ha := hf a h hfunctions
      exact ha.bind (ih ha.patchable (ha.functions.trans hfunctions))

theorem setImportGlobals (imp : FileBody) (h : Patchable c) :
    (setImportGlobals imp).CompilesAt c (sitesOfImport c.ast.functions imp) := by
  have hown := setOwnGlobals h imp.scopeId imp.statements
  have hnested := setNestedGlobals imp.statements hown.patchable
  have hread := (CompilesIn.callless hnested.patchable .getContext).compiles
  have hfunctions := hnested.functions.trans hown.functions
  unfold sitesOfImport
  rw [← hfunctions]
  exact hown.bind (hnested.bind (hread.bind
    (forM (fun body _ h _ => setGlobals body h) _ hnested.patchable rfl)))

/-! ## The code of a function -/

theorem generateFinalRet (h : Patchable c) (function : ASTFunction) :
    (generateFinalRet function).CompilesAt c [] := by
  unfold TinCompiler.generateFinalRet
  refine (CompilesIn.callless h .getContext).compiles.bind ?_
  split
  · exact (CompilesIn.callless h (.pure _)).compiles
  · split
    · exact (CompilesIn.callless h (.pure _)).compiles
    · have hrest : ∀ {c : GeneratorContext}, Patchable c → (TinCompiler.releaseTo 0 >>= fun _ =>
          emit fun piece => piece.emitRet).CompilesAt c [] := by
        intro c h
        have hrelease := CompilesIn.releaseTo h 0
        exact hrelease.compiles.bind (CompilesIn.emitRet hrelease.patchable).compiles
      split
      · have hreport := (CompilesIn.callless h (.report function.location
          "Missing return statement. They are mandatory if the function has a return type.")).compiles
        exact hreport.bind (hrest hreport.patchable)
      · exact (CompilesIn.callless h (.pure _)).compiles.bind (hrest h)

theorem reserveResult (h : Patchable c) (function : ASTFunction) :
    (reserveResult function).CompilesIn c fun _ => [] := by
  unfold TinCompiler.reserveResult
  split
  · refine (CompilesIn.callless h .getContext).front ?_
    have hreserve := CompilesIn.callless h
      (.emitIncr (-(alignUp (c.ast.sizeOfType function.returnType) 8 : ℤ)))
    exact hreserve.front (CompilesIn.setFrameOffset hreserve.patchable _)
  · exact CompilesIn.callless h (.pure _)

theorem generateFunctionCode (h : Patchable c) (function : ASTFunction) (body : ASTBody) :
    (generateFunctionCode function body).CompilesAt c (function.sites c.ast body) := by
  have hrest : ∀ {c : GeneratorContext}, Patchable c →
      (TinCompiler.reserveResult function >>= fun _ => TinCompiler.generateBody body >>=
        fun completed => TinCompiler.generateFinalRet function >>= fun _ =>
          (Pure.pure completed : GeneratorM Bool)).CompilesAt c ([] ++ (sitesOfBody body ++ ([] ++ []))) := by
    intro c h
    have hreserve := reserveResult h function
    have hbody := CompilesIn.generateBody body hreserve.patchable
    have hret := generateFinalRet hbody.patchable function
    exact hreserve.compiles.bind (hbody.compiles.bind (hret.bind
      (CompilesIn.callless hret.patchable (.pure _)).compiles))
  simp only [List.nil_append, List.append_nil] at hrest
  unfold TinCompiler.generateFunctionCode ASTFunction.sites
  split
  · have himports := forM (fun imp {c'} h (hfunctions : c'.ast.functions = c.ast.functions) =>
      hfunctions ▸ setImportGlobals imp h) c.ast.importBodies h rfl
    have hscope := setScope himports.patchable c.currentScopeId
    have hread := (CompilesIn.callless h .getContext).compiles
    exact hread.bind (himports.bind (hscope.bind (hrest hscope.patchable)))
  · exact hrest h

end GeneratorM.CompilesAt

theorem patchable_functionContext (ast : AST) (function : ASTFunction) (bytecode : Bytecode)
    (reporter : Reporter) : Patchable (functionContext ast function bytecode reporter) where
  linked := ⟨[], assembles_empty.of_eq rfl rfl, nofun, rfl⟩
  breaks := nofun

/-! ## Functions one after another -/

/-- The tables, the bytecode and the reports between two functions. -/
abbrev Generation := AST × Bytecode × Reporter

/-- `GenerateFunction` on one function after the other. -/
def generateFunctions (order : List ℕ) (s : Generation) : Generation :=
  order.foldl (fun s f => generateFunction s.1 f s.2.1 s.2.2) s

/-- The tables once the function has a piece. -/
def AST.setPiece (ast : AST) (f n : ℕ) : AST :=
  { ast with
    functions := Function.update ast.functions f { ast.functions f with pieceCodeIndex := n } }

namespace AST

variable (ast : AST) (f n : ℕ)

@[simp] theorem functions_setPiece_self :
    (ast.setPiece f n).functions f = { ast.functions f with pieceCodeIndex := n } :=
  Function.update_self ..

@[simp] theorem functions_setPiece_of_ne {g : ℕ} (hne : g ≠ f) :
    (ast.setPiece f n).functions g = ast.functions g := Function.update_of_ne hne ..

/-- Only the number of the piece is different. -/
theorem functions_setPiece (g : ℕ) : ((ast.setPiece f n).functions g).name = (ast.functions g).name ∧
    ((ast.setPiece f n).functions g).body = (ast.functions g).body ∧
    ((ast.setPiece f n).functions g).isNative = (ast.functions g).isNative := by
  by_cases heq : g = f
  · subst heq
    rw [functions_setPiece_self]
    exact ⟨rfl, rfl, rfl⟩
  · rw [functions_setPiece_of_ne ast f n heq]
    exact ⟨rfl, rfl, rfl⟩

theorem findFunction_setPiece (name : String) (scopeId : ScopeId) :
    (ast.setPiece f n).findFunction name scopeId = ast.findFunction name scopeId := by
  have hsame : SameTables ast (ast.setPiece f n) :=
    ⟨rfl, rfl, rfl, rfl, rfl, rfl, fun _ => rfl, fun _ => rfl, fun _ => rfl, fun _ => rfl⟩
  exact findFunction_congr hsame (fun _ => rfl) (fun g => (ast.functions_setPiece f n g).1) name scopeId

end AST

theorem ASTFunction.sites_setPiece (function : ASTFunction) (ast : AST) (f n : ℕ) (body : ASTBody) :
    function.sites (ast.setPiece f n) body = function.sites ast body := by
  unfold ASTFunction.sites
  have himports : sitesOfImport (ast.setPiece f n).functions = sitesOfImport ast.functions := by
    funext imp
    unfold sitesOfImport
    simp only [(ast.functions_setPiece f n _).2.1]
  rw [himports]
  rfl

namespace Generation

/-- The context in which the code of a function is complete. -/
def finish (s : Generation) (f : ℕ) : GeneratorContext :=
  let function := s.1.functions f
  let start := functionContext (s.1.setPiece f s.2.1.pieces.length) function s.2.1 s.2.2
  match function.body with
  | none => start
  | some body => (generateFunctionCode function body start).2

/-- The calls that the source of a function has. -/
def sites (s : Generation) (f : ℕ) : List CallSite :=
  match (s.1.functions f).body with
  | none => []
  | some body => (s.1.functions f).sites s.1 body

/-- The function is generated: it is not a native. -/
def Generates (s : Generation) (f : ℕ) : Prop :=
  (s.1.functions f).isNative = false ∧ (s.1.functions f).body.isSome = true

variable {s : Generation} {f : ℕ}

theorem finish_eq {body : ASTBody} (hbody : (s.1.functions f).body = some body) :
    s.finish f = (generateFunctionCode (s.1.functions f) body (functionContext
      (s.1.setPiece f s.2.1.pieces.length) (s.1.functions f) s.2.1 s.2.2)).2 := by
  rw [finish, hbody]

theorem generateFunction_eq_finish (h : s.Generates f) :
    generateFunction s.1 f s.2.1 s.2.2 =
      ((s.finish f).ast, { (s.finish f).bytecode with
        pieces := (s.finish f).bytecode.pieces ++ [(s.finish f).piece] }, (s.finish f).reporter) := by
  obtain ⟨body, hbody⟩ := Option.isSome_iff_exists.mp h.2
  rw [finish_eq hbody]
  unfold generateFunction
  dsimp only
  split
  · next found _ hfound =>
      obtain rfl : found = body := Option.some.inj (hfound.symm.trans hbody)
      rfl
  · next hnone => exact absurd hbody (hnone body h.1)

/-- What the code of a function is like: its relocations are those of its calls, and they are of the
functions that are found there. -/
structure Compiled (c : GeneratorContext) (sites : List CallSite) : Prop where
  linked : ∃ ops, Linked c.piece ops
  calls : ∃ compiled, compiled.Sublist sites ∧ (c.abandoned = [] → compiled = sites) ∧
    List.Forall₂ (fun (site : CallSite) (rel : ℕ × ℕ) =>
      c.ast.findFunction site.2 site.1 = some rel.1) compiled c.piece.relocations

/-- One function. -/
theorem finish_spec (h : s.Generates f) : Compiled (s.finish f) (s.sites f) ∧
    (s.finish f).ast.functions = (s.1.setPiece f s.2.1.pieces.length).functions ∧
    (∀ name scopeId, (s.finish f).ast.findFunction name scopeId = s.1.findFunction name scopeId) ∧
    (s.finish f).bytecode.pieces = s.2.1.pieces := by
  obtain ⟨body, hbody⟩ := Option.isSome_iff_exists.mp h.2
  have hcompiles := CompilesAt.generateFunctionCode (patchable_functionContext
    (s.1.setPiece f s.2.1.pieces.length) (s.1.functions f) s.2.1 s.2.2) (s.1.functions f) body
  have hsites : s.sites f = (s.1.functions f).sites (s.1.setPiece f s.2.1.pieces.length) body := by
    rw [ASTFunction.sites_setPiece, sites, hbody]
  rw [hsites, finish_eq hbody]
  refine ⟨⟨hcompiles.patchable.linked, ?_⟩, hcompiles.functions, fun name scopeId =>
    (hcompiles.found name scopeId).trans (AST.findFunction_setPiece ..), hcompiles.pieces⟩
  obtain ⟨compiled, added, hsub, hall, hforall, hrel⟩ := hcompiles.calls
  refine ⟨compiled, hsub, hall, ?_⟩
  rw [hrel]
  simp only [hcompiles.found]
  exact hforall

/-! ### All functions -/

/-- All of these functions are generated, each once. -/
structure GeneratesAll (s : Generation) (order : List ℕ) : Prop where
  nodup : order.Nodup
  each : ∀ f ∈ order, s.Generates f

theorem generateFunctions_cons (order : List ℕ) (f : ℕ) (s : Generation) :
    generateFunctions (f :: order) s =
      generateFunctions order (generateFunction s.1 f s.2.1 s.2.2) := rfl

/-- After one function the others are still to be generated. -/
theorem GeneratesAll.tail {order : List ℕ} (h : s.GeneratesAll (f :: order)) :
    GeneratesAll (generateFunction s.1 f s.2.1 s.2.2) order := by
  have hf := h.each f (List.mem_cons_self ..)
  refine ⟨(List.nodup_cons.mp h.nodup).2, fun g hg => ?_⟩
  have hg := h.each g (List.mem_cons_of_mem _ hg)
  have hfunctions := (finish_spec hf).2.1
  have hsame := s.1.functions_setPiece f s.2.1.pieces.length g
  unfold Generates
  rw [generateFunction_eq_finish hf]
  simp only [hfunctions, hsame]
  exact hg

/-- What a run over `order` makes of the pieces and the functions. -/
structure Run (s s' : Generation) (order : List ℕ) : Prop where
  found : ∀ name scopeId, s'.1.findFunction name scopeId = s.1.findFunction name scopeId
  others : ∀ g, g ∉ order → s'.1.functions g = s.1.functions g
  indices : ∀ (i f : ℕ), order[i]? = some f →
    (s'.1.functions f).pieceCodeIndex = s.2.1.pieces.length + i
  length : s'.2.1.pieces.length = s.2.1.pieces.length + order.length
  earlier : s.2.1.pieces <+: s'.2.1.pieces
  pieces : ∀ (i f : ℕ), order[i]? = some f → s'.2.1.pieces[s.2.1.pieces.length + i]? =
    some ((generateFunctions (order.take i) s).finish f).piece
  compiled : ∀ (i f : ℕ), order[i]? = some f →
    Compiled ((generateFunctions (order.take i) s).finish f)
        ((generateFunctions (order.take i) s).sites f) ∧
      ∀ name scopeId, ((generateFunctions (order.take i) s).finish f).ast.findFunction name scopeId =
        s.1.findFunction name scopeId

theorem run_generateFunctions (order : List ℕ) :
    ∀ {s : Generation}, s.GeneratesAll order → Run s (generateFunctions order s) order := by
  induction order with
  | nil => exact fun _ => ⟨fun _ _ => rfl, fun _ _ => rfl, nofun, rfl, List.prefix_rfl, nofun, nofun⟩
  | cons f order ih =>
      intro s h
      have hf := h.each f (List.mem_cons_self ..)
      obtain ⟨hcompiled, hfunctions, hfound, hpieces⟩ := finish_spec hf
      have hrest := ih h.tail
      rw [generateFunctions_cons]
      have hfirst : (generateFunction s.1 f s.2.1 s.2.2).2.1.pieces =
          s.2.1.pieces ++ [(s.finish f).piece] := by
        rw [generateFunction_eq_finish hf, hpieces]
      have hast : (generateFunction s.1 f s.2.1 s.2.2).1 = (s.finish f).ast := by
        rw [generateFunction_eq_finish hf]
      have hlength : (generateFunction s.1 f s.2.1 s.2.2).2.1.pieces.length =
          s.2.1.pieces.length + 1 := by
        rw [hfirst, List.length_append, List.length_singleton]
      have hnotMem := (List.nodup_cons.mp h.nodup).1
      refine ⟨fun name scopeId => ?_, fun g hg => ?_, fun i g hi => ?_, ?_, ?_, fun i g hi => ?_,
        fun i g hi => ?_⟩
      · rw [hrest.found, hast, hfound]
      · rw [List.mem_cons, not_or] at hg
        rw [hrest.others g hg.2, hast, hfunctions, AST.functions_setPiece_of_ne _ _ _ hg.1]
      · cases i with
        | zero =>
            cases hi
            rw [hrest.others f hnotMem, hast, hfunctions, AST.functions_setPiece_self]
            simp
        | succ i =>
            rw [hrest.indices i g hi, hlength]
            push_cast
            omega
      · rw [hrest.length, hlength, List.length_cons]
        omega
      · refine List.IsPrefix.trans ?_ hrest.earlier
        rw [hfirst]
        exact List.prefix_append _ _
      · cases i with
        | zero =>
            cases hi
            obtain ⟨later, hlater⟩ := hrest.earlier
            rw [← hlater, hfirst, Nat.add_zero, List.append_assoc,
              List.getElem?_append_right (Nat.le_refl _), Nat.sub_self]
            rfl
        | succ i =>
            have hpiece := hrest.pieces i g hi
            rw [hlength, Nat.add_assoc, Nat.add_comm 1 i] at hpiece
            exact hpiece
      · cases i with
        | zero =>
            cases hi
            exact ⟨hcompiled, hfound⟩
        | succ i =>
            obtain ⟨hlater, hsame⟩ := hrest.compiled i g hi
            refine ⟨hlater, fun name scopeId => (hsame name scopeId).trans ?_⟩
            rw [hast, hfound]

end Generation

/-! ## Linked programs -/

/-- `native_names` -/
def nativeNames : List String :=
  ["printi", "printf", "printc", "prints", "malloc", "mfree", "memcpy", "pow", "sqrt", "read_file",
    "write_file"]

/-- `NATIVE_MAX` -/
def nativeMax : ℕ := 11

/-- A native has the number of its name, as in the constructor of the tables. -/
def ASTFunction.Numbered (function : ASTFunction) : Prop :=
  ∃ number < nativeMax, nativeNames[number]? = some function.name ∧
    function.pieceCodeIndex = number - nativeMax

/-- All functions that a call can find are natives or generated, each once. -/
structure Complete (s : Generation) (order : List ℕ) : Prop extends s.GeneratesAll order where
  found : ∀ name scopeId f, s.1.findFunction name scopeId = some f →
    f ∈ order ∨ (s.1.functions f).isNative = true
  natives : ∀ f, (s.1.functions f).isNative = true → (s.1.functions f).Numbered

/-- The immediate `k` of a call stands for the function `f`: it is the number of the piece that is
generated for it, plus one, or the number of the native, less `NATIVE_MAX`. -/
def StandsFor (s : Generation) (order : List ℕ) (k : ℤ) (f : ℕ) : Prop :=
  (0 < k ∧ order[(k - 1).toNat]? = some f) ∨
    (k < 0 ∧ (s.1.functions f).isNative = true ∧ 0 ≤ k + nativeMax ∧
      nativeNames[(k + nativeMax).toNat]? = some (s.1.functions f).name)

theorem standsFor_callImmediate {s : Generation} {order : List ℕ} (h : Complete s order)
    (hpieces : s.2.1.pieces = []) {f : ℕ}
    (hf : f ∈ order ∨ (s.1.functions f).isNative = true) :
    StandsFor s order ((generateFunctions order s).1.functions f).callImmediate f := by
  have hrun := Generation.run_generateFunctions order h.toGeneratesAll
  unfold ASTFunction.callImmediate
  by_cases hmem : f ∈ order
  · obtain ⟨i, hi⟩ := List.getElem?_of_mem hmem
    have hindex := hrun.indices i f hi
    rw [hpieces, List.length_nil] at hindex
    rw [hindex, if_neg (by omega)]
    refine .inl ⟨by omega, ?_⟩
    rw [← hi]
    congr 1
    omega
  · have hnative := hf.resolve_left hmem
    obtain ⟨number, hlt, hname, hindex⟩ := h.natives f hnative
    rw [hrun.others f hmem, hindex]
    have hneg : (number : ℤ) - nativeMax < 0 := by omega
    rw [if_pos hneg]
    refine .inr ⟨hneg, hnative, by omega, ?_⟩
    rw [← hname]
    congr 1
    omega

/-- Every call has one relocation, and it is at the immediate of the call. -/
structure BytecodePiece.Relocated (piece : BytecodePiece) : Prop where
  once : ∀ p, piece.instructions[p]? = some (.inst .call) →
    (piece.relocations.map Prod.snd).count (p + 1) = 1
  own : ∀ rel ∈ piece.relocations,
    ∃ p, rel.2 = p + 1 ∧ piece.instructions[p]? = some (.inst .call)

theorem Linked.relocated_applyRelocations {piece : BytecodePiece} {ops : List Op}
    (h : Linked piece ops) (functions : ℕ → ASTFunction) :
    (piece.applyRelocations functions).Relocated := by
  -- the cells of the calls themselves are not immediates
  have hsame : ∀ p : ℕ, (relocate functions piece.relocations piece.instructions)[p]? =
      some (Cell.inst .call) ↔ piece.instructions[p]? = some (.inst .call) := by
    intro p
    by_cases hp : p ∈ piece.relocations.map Prod.snd
    · obtain ⟨v, hv⟩ := h.immAt hp
      obtain ⟨rel, hrel, rfl⟩ := List.mem_map.mp hp
      rw [getElem?_relocate_of_mem h.nodup hrel (List.getElem?_eq_some_iff.mp hv).1, hv]
      simp
    · rw [getElem?_relocate_of_notMem hp]
  refine ⟨fun p hp => ?_, fun rel hrel => ?_⟩
  · exact List.count_eq_one_of_mem h.nodup ((h.mem_iff _).mpr ⟨p, rfl, (hsame p).mp hp⟩)
  · obtain ⟨p, heq, hp⟩ := (h.mem_iff _).mp (List.mem_map_of_mem hrel)
    exact ⟨p, heq, (hsame p).mpr hp⟩

/-- The calls of a linked piece, generated in the context `c`, are those of the source that have
code, in their order, and each of them stands for the function that was found there. -/
def CallsFound (s : Generation) (order : List ℕ) (c : GeneratorContext) (sites : List CallSite)
    (piece : BytecodePiece) : Prop :=
  ∃ compiled : List CallSite, compiled.Sublist sites ∧ (c.abandoned = [] → compiled = sites) ∧
    List.Forall₂ (fun (site : CallSite) (rel : ℕ × ℕ) =>
      ∃ (f : ℕ) (k : ℤ), c.ast.findFunction site.2 site.1 = some f ∧
        piece.instructions[rel.2]? = some (.imm k) ∧ StandsFor s order k f)
      compiled piece.relocations

theorem linked_calls {s : Generation} {order : List ℕ} (h : Complete s order)
    (hpieces : s.2.1.pieces = []) :
    let s' := generateFunctions order s
    let linked := s'.2.1.applyRelocations s'.1
    linked.applyRelocations s'.1 = linked ∧ linked.pieces.length = order.length ∧
      ∀ (i f : ℕ), order[i]? = some f →
        let before := generateFunctions (order.take i) s
        let piece := (before.finish f).piece.applyRelocations s'.1.functions
        linked.pieces[i]? = some piece ∧ piece.Relocated ∧
          CallsFound s order (before.finish f) (before.sites f) piece := by
  intro s' linked
  have hrun := Generation.run_generateFunctions order h.toGeneratesAll
  have hpiece : ∀ (i f : ℕ), order[i]? = some f → s'.2.1.pieces[i]? =
      some ((generateFunctions (order.take i) s).finish f).piece := by
    intro i f hi
    have hpiece := hrun.pieces i f hi
    rwa [hpieces, List.length_nil, Nat.zero_add] at hpiece
  have hlength : s'.2.1.pieces.length = order.length := by
    rw [hrun.length, hpieces, List.length_nil, Nat.zero_add]
  refine ⟨?_, ?_, fun i f hi => ?_⟩
  · have htwice : ∀ piece ∈ s'.2.1.pieces,
        (piece.applyRelocations s'.1.functions).applyRelocations s'.1.functions =
          piece.applyRelocations s'.1.functions := by
      intro piece hmem
      obtain ⟨i, hi⟩ := List.getElem?_of_mem hmem
      have hlt : i < order.length := hlength ▸ (List.getElem?_eq_some_iff.mp hi).1
      obtain ⟨⟨⟨ops, hlinked⟩, -⟩, -⟩ := hrun.compiled i order[i] (List.getElem?_eq_getElem hlt)
      obtain rfl := Option.some.inj (hi.symm.trans (hpiece i _ (List.getElem?_eq_getElem hlt)))
      simp only [BytecodePiece.applyRelocations, relocate_relocate hlinked.nodup]
    simp only [linked, Bytecode.applyRelocations, List.map_map, Function.comp_def]
    rw [List.map_congr_left htwice]
  · simpa [linked, Bytecode.applyRelocations] using hlength
  · obtain ⟨⟨⟨ops, hlinked⟩, compiled, hsub, hall, hcalls⟩, hfound⟩ := hrun.compiled i f hi
    refine ⟨?_, hlinked.relocated_applyRelocations _, compiled, hsub, hall, ?_⟩
    · simp [linked, Bytecode.applyRelocations, hpiece i f hi]
    · have hall : ∀ rel ∈ ((generateFunctions (order.take i) s).finish f).piece.relocations,
          (relocate s'.1.functions ((generateFunctions (order.take i) s).finish f).piece.relocations
            ((generateFunctions (order.take i) s).finish f).piece.instructions)[rel.2]? =
              some (.imm (s'.1.functions rel.1).callImmediate) := by
        intro rel hrel
        obtain ⟨v, hv⟩ := hlinked.immAt (List.mem_map_of_mem hrel)
        exact getElem?_relocate_of_mem hlinked.nodup hrel (List.getElem?_eq_some_iff.mp hv).1
      have hboth := (List.forall₂_and_left _ _).mpr ⟨hall, hcalls.flip⟩
      refine List.Forall₂.flip (hboth.imp fun rel site hrel => ?_)
      obtain ⟨himm, hsite⟩ := hrel
      refine ⟨rel.1, _, hsite, himm, standsFor_callImmediate h hpieces (h.found site.2 site.1 _ ?_)⟩
      exact (hfound _ _).symm.trans hsite

/-- `fun first() { second(); }` and `fun second() { }` behind the natives -/
def AST.twoFunctions : AST :=
  { AST.initial with
    functionsUsed := 13
    functions := fun f => (AST.nativeFunctions ++
      ([{ name := "first",
          body := some (.mk globalScope [.expression (.functionCall "second" [] 0) 0]) },
        { name := "second", body := some (.mk globalScope []) }] : List ASTFunction)).getD f {}
    scopes := Function.update AST.initial.scopes globalScope
      { AST.initial.scopes globalScope with functions := List.range 13 } }

theorem AST.complete_twoFunctions : Complete (AST.twoFunctions, {}, {}) [12, 11] where
  nodup := by decide
  each := by
    unfold Generation.Generates
    decide
  found := by
    intro name scopeId f hfound
    obtain ⟨i, hselect⟩ := AST.exists_of_searchFrom hfound
    by_cases hi : i = globalScope
    · subst hi
      have hmem : f ∈ List.range 13 := List.mem_of_find?_eq_some hselect
      have hall : ∀ f ∈ List.range 13,
          f ∈ [12, 11] ∨ (AST.twoFunctions.functions f).isNative = true := by decide
      exact hall f hmem
    · have hscope : AST.twoFunctions.scopes i = ({} : ScopeInfo) :=
        (Function.update_of_ne hi _ _).trans (AST.initial_scopes hi)
      rw [hscope] at hselect
      cases hselect
  natives := by
    intro f hnative
    by_cases hlt : f < 13
    · have hall : ∀ f < 13, (AST.twoFunctions.functions f).isNative = true →
          (AST.twoFunctions.functions f).Numbered := by
        unfold ASTFunction.Numbered
        decide
      exact hall f hlt hnative
    · have hnone : AST.twoFunctions.functions f = ({} : ASTFunction) :=
        List.getD_eq_default _ _ (show (AST.nativeFunctions ++ _).length ≤ f from Nat.le_of_not_lt hlt)
      rw [hnone] at hnative
      cases hnative

theorem linked_calls_pair :
    ((generateFunctions [12, 11] (AST.twoFunctions, {}, {})).2.1.applyRelocations
      (generateFunctions [12, 11] (AST.twoFunctions, {}, {})).1).pieces.length = 2 :=
  (linked_calls AST.complete_twoFunctions rfl).2.1

end TinCompiler
