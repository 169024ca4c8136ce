import TinCompiler.Generator.Function
import TinCompiler.Library.TakeFirst
import TinCompiler.Library.Transition
import TinCompiler.Structs.Layout

/-!
# The task loop

`processTasks` on one thread.  The first task of the queue whose import waits for nothing is
taken out, processed and, unless its import is done or has failed, pushed again for the next
phase.  All files lex and parse: `files` gives what the parser makes of the file of each path.
-/

namespace TinCompiler

/-- `TaskType` -/
inductive TaskType where
  | lexFile | checkStructs | checkFunctions | genFunctions
deriving DecidableEq, Repr

/-- `Compiler::Task`; `imp` is the index of the import. -/
structure Task where
  type : TaskType
  name : String
  imp : Option ℕ := none
  noChange : Bool := false
deriving DecidableEq, Repr

/-- `AST::Import`; an import has a body as soon as its file is parsed. -/
structure Import where
  name : String := ""
  body : Option FileBody := none
  dependencies : List String := []
  fixups : List ℕ := []
  depsCount : ℕ := 0
  depsNow : ℕ := 0

/-- A struct as it is declared. -/
structure SourceStruct where
  name : String
  members : List Member := []

def SourceStruct.node (source : SourceStruct) : ASTStructure where
  name := source.name
  members := source.members

/-- What the parser finds in a file.  The scopes of the bodies in the file are created in order
behind the scope of the file; `scopes` are their parents, counted from the scope of the file. -/
structure SourceFile where
  imports : List String := []
  structures : List SourceStruct := []
  scopes : List ℕ := []
  functions : ScopeId → List ASTFunction := fun _ => []
  statements : ScopeId → List ASTStatement := fun _ => []

/-! ## Parsing -/

/-- A list of new entries behind the first `used` ones. -/
def install {α : Type} (used : ℕ) (old : ℕ → α) (new : List α) (index : ℕ) : α :=
  if index < used then old index else new.getD (index - used) (old index)

/-- The scope of the file and those of its bodies. -/
def createScopes (ast : AST) (scopes : List ℕ) : AST :=
  let file := ast.scopesUsed
  scopes.foldl (fun ast parent => (ast.createScope (file + parent)).2)
    (ast.createScope globalScope).2

/-- `ParseTokenStream` without the fields of the import. -/
def parseFile (file : SourceFile) (ast : AST) : FileBody × AST :=
  let scopeId := ast.scopesUsed
  let body : FileBody :=
    { scopeId := scopeId
      statements := file.statements scopeId
      functions := List.range' ast.functionsUsed (file.functions scopeId).length
      structures := List.range' ast.structuresUsed file.structures.length }
  let created := createScopes ast file.scopes
  (body, { created with
    structuresUsed := ast.structuresUsed + file.structures.length
    structures := install ast.structuresUsed ast.structures (file.structures.map SourceStruct.node)
    functionsUsed := ast.functionsUsed + (file.functions scopeId).length
    functions := install ast.functionsUsed ast.functions (file.functions scopeId)
    scopes := Function.update created.scopes scopeId
      { created.scopes scopeId with functions := body.functions } })

/-- An import statement; duplicates are ignored. -/
def addDependency (dependencies : List String) (path : String) : List String :=
  if path ∈ dependencies then dependencies else dependencies ++ [path]

/-- `shared_scopes.push_back` -/
def AST.shareScope (ast : AST) (scopeId shared : ScopeId) : AST :=
  { ast with
    scopes := Function.update ast.scopes scopeId
      { ast.scopes scopeId with
        sharedScopes := (ast.scopes scopeId).sharedScopes ++ [shared] } }

/-! ## The compiler -/

/-- The fields that `processTasks` works on.  `processed` is a ghost that no function reads. -/
structure Compiler where
  ast : AST := AST.initial
  reporter : Reporter := {}
  bytecode : Bytecode := {}
  importsUsed : ℕ := 0
  imports : ℕ → Import := fun _ => {}
  importMap : String → Option ℕ := fun _ => none
  tasks : List Task := []
  processed : List (TaskType × ℕ) := []

namespace Compiler

def createImport (name : String) (c : Compiler) : ℕ × Compiler :=
  (c.importsUsed, { c with
    importsUsed := c.importsUsed + 1
    imports := Function.update c.imports c.importsUsed { name := name }
    importMap := Function.update c.importMap name (some c.importsUsed) })

def modifyImport (imp : ℕ) (f : Import → Import) (c : Compiler) : Compiler :=
  { c with imports := Function.update c.imports imp (f (c.imports imp)) }

/-- The scope of `shared` becomes visible in `imp`. -/
def shareImport (imp shared : ℕ) (c : Compiler) : Compiler :=
  match (c.imports imp).body, (c.imports shared).body with
  | some body, some sharedBody => { c with ast := c.ast.shareScope body.scopeId sharedBody.scopeId }
  | _, _ => c

/-- `task.imp->deps_count != task.imp->deps_now` means not ready. -/
def ready (c : Compiler) (task : Task) : Bool :=
  match task.imp with
  | none => true
  | some imp => (c.imports imp).depsCount = (c.imports imp).depsNow

/-! ### `TASK_LEX_FILE` -/

/-- The body and the dependencies of a parsed file; `ast->imports` is what code generation
walks through. -/
def setParsed (imp : ℕ) (file : SourceFile) (c : Compiler) : Compiler :=
  let parsed := parseFile file c.ast
  let imports := Function.update c.imports imp
    { c.imports imp with
      body := some parsed.1
      dependencies := file.imports.foldl addDependency (c.imports imp).dependencies }
  { c with
    imports := imports
    ast := { parsed.2 with
      importBodies := (List.range c.importsUsed).filterMap fun i => (imports i).body } }

/-- One waiting import in the loop over the fixups of `imp`. -/
def resolveFixup (imp : ℕ) (c : Compiler) (waiting : ℕ) : Compiler :=
  (c.modifyImport waiting fun i => { i with depsNow := i.depsNow + 1 }).shareImport waiting imp

/-- The imports that wait for `imp` need not wait any more. -/
def resolveFixups (imp : ℕ) (c : Compiler) : Compiler :=
  ((c.imports imp).fixups.foldl (resolveFixup imp) c).modifyImport imp fun i =>
    { i with fixups := [] }

/-- `imp` waits for the import `dep`. -/
def waitFor (imp dep : ℕ) (c : Compiler) : Compiler :=
  (c.modifyImport dep fun i => { i with fixups := i.fixups ++ [imp] }).modifyImport imp fun i =>
    { i with depsCount := i.depsCount + 1 }

/-- One dependency of `imp`. -/
def registerDependency (imp : ℕ) (c : Compiler) (path : String) : Compiler :=
  match c.importMap path with
  | none =>
      let created := c.createImport path
      let c := created.2.waitFor imp created.1
      { c with tasks := c.tasks ++ [{ type := .lexFile, name := path, imp := some created.1 }] }
  | some dep =>
      match (c.imports dep).body with
      | some _ => c.shareImport imp dep
      | none => c.waitFor imp dep

/-- The import of the file; `ParseTokenStream` creates it when the task has none. -/
def importOf (task : Task) (c : Compiler) : ℕ × Compiler :=
  match task.imp with
  | some imp => (imp, c)
  | none => c.createImport task.name

def lexFileTask (files : String → SourceFile) (task : Task) (c : Compiler) :
    Option Task × Compiler :=
  let imp := (c.importOf task).1
  let c := ((c.importOf task).2.setParsed imp (files task.name)).resolveFixups imp
  let c := c.modifyImport imp fun i => { i with depsNow := 0, depsCount := 0 }
  let c := (c.imports imp).dependencies.foldl (registerDependency imp) c
  (some { task with type := .checkStructs, imp := some imp },
    { c with processed := c.processed ++ [(.lexFile, imp)] })

/-! ### The other tasks, on the import `imp` with the body `body` -/

/-- After two passes without a change the errors are reported. -/
def checkStructsTask (task : Task) (imp : ℕ) (body : FileBody) (c : Compiler) :
    Option Task × Compiler :=
  let pass := checkStructs c.ast c.reporter body true
  let checked := { c with
    ast := pass.ast
    reporter := pass.reporter
    processed := c.processed ++ [(.checkStructs, imp)] }
  if pass.failure then
    if !pass.changed && task.noChange then
      let shown := checkStructs pass.ast pass.reporter body false
      (none, { checked with ast := shown.ast, reporter := shown.reporter })
    else (some { task with noChange := !pass.changed }, checked)
  else (some { task with type := .checkFunctions }, checked)

def checkFunctionsTask (task : Task) (imp : ℕ) (body : FileBody) (c : Compiler) :
    Option Task × Compiler :=
  let checked := body.functions.foldl
    (fun tables f => checkFunction tables.1 tables.2 body.scopeId f) (c.ast, c.reporter)
  let globals := checkGlobals body.scopeId body.statements checked.1 c.bytecode checked.2
  (if checked.2.errors = 0 then some { task with type := .genFunctions } else none,
    { c with
      ast := globals.1
      bytecode := globals.2.1
      reporter := globals.2.2
      processed := c.processed ++ [(.checkFunctions, imp)] })

def genFunctionsTask (imp : ℕ) (body : FileBody) (c : Compiler) : Option Task × Compiler :=
  let generated := body.functions.foldl
    (fun tables f => generateFunction tables.1 f tables.2.1 tables.2.2)
    (c.ast, c.bytecode, c.reporter)
  (none, { c with
    ast := generated.1
    bytecode := generated.2.1
    reporter := generated.2.2
    processed := c.processed ++ [(.genFunctions, imp)] })

/-! ### The loop -/

/-- The switch: the task that is queued again and the compiler behind it. -/
def process (files : String → SourceFile) (task : Task) (c : Compiler) : Option Task × Compiler :=
  match task.type, task.imp.bind fun imp => (c.imports imp).body.map fun body => (imp, body) with
  | .lexFile, _ => c.lexFileTask files task
  | .checkStructs, some (imp, body) => c.checkStructsTask task imp body
  | .checkFunctions, some (imp, body) => c.checkFunctionsTask task imp body
  | .genFunctions, some (imp, body) => c.genFunctionsTask imp body
  | _, none => (none, c)

/-- One round of the loop; `none` when no task is ready. -/
def step (files : String → SourceFile) (c : Compiler) : Option Compiler :=
  (takeFirst c.ready c.tasks).map fun taken =>
    let processed := { c with tasks := taken.2 }.process files taken.1
    { processed.2 with tasks := processed.2.tasks ++ processed.1.toList }

/-- At most `n` rounds of the loop. -/
def processTasks (files : String → SourceFile) : ℕ → Compiler → Compiler
  | 0, c => c
  | n + 1, c =>
      match c.step files with
      | none => c
      | some c' => c'.processTasks files n

/-- The compiler when `CompileFile` calls `processTasks`. -/
def start (initialFile : String) : Compiler :=
  let globalBody : FileBody :=
    { scopeId := globalScope, functions := List.range AST.nativeFunctions.length }
  let c := (createImport "preload" {}).2.modifyImport 0 fun i => { i with body := some globalBody }
  { c with
    ast := { c.ast with importBodies := [globalBody] }
    tasks := [{ type := .checkStructs, name := "preload", imp := some 0 },
      { type := .lexFile, name := initialFile }] }

/-- The runs of `processTasks`. -/
def run (files : String → SourceFile) (initialFile : String) : Transition Compiler where
  init c := c = start initialFile
  step c c' := c.step files = some c'

end Compiler

end TinCompiler
