import TinCompiler.Compiler.Tasks

/-!
# Dependencies registered by several threads

The part of `processTasks` that finds, creates and links imports, for any number of threads.
Between two of the steps here any other thread may run: `findImport`, `createImport` and each
block under `tasks_lock` are steps of their own, and so are the start of `ParseTokenStream`,
which sets `imp->body`, and its return.  The other three tasks leave the imports alone; they
queue their task again or drop it.

`returned`, `registered` and `lexed` are read by nothing in the model.
-/

namespace TinCompiler.Registration

open TinCompiler (TaskType Task SourceFile addDependency)

/-- `AST::Import` with the `shared_scopes` of its scope. -/
structure Import where
  name : String := ""
  /-- `imp->body` is set -/
  started : Bool := false
  /-- `ParseTokenStream` has returned -/
  returned : Bool := false
  fixups : List ℕ := []
  depsCount : ℕ := 0
  depsNow : ℕ := 0
  sharedScopes : List ℕ := []
  /-- the dependencies that the loop is done with -/
  registered : List String := []

/-- Where a thread stands. -/
inductive Position where
  | idle
  /-- took a `TASK_LEX_FILE` -/
  | lexing (task : Task)
  /-- in `ParseTokenStream`, before `imp->body = global_body` -/
  | starting (imp : ℕ)
  | parsing (imp : ℕ)
  /-- `ParseTokenStream` has returned -/
  | parsed (imp : ℕ)
  /-- the fixups of the import are told and cleared -/
  | resolved (imp : ℕ)
  /-- at the head of the loop over the dependencies -/
  | registering (imp : ℕ) (rest : List String)
  /-- with the result of `findImport` -/
  | found (imp : ℕ) (name : String) (rest : List String) (dep : Option ℕ)
  /-- with the result of `createImport` -/
  | created (imp : ℕ) (name : String) (rest : List String) (dep : ℕ)
  /-- took one of the other tasks -/
  | working (task : Task)
deriving DecidableEq

structure State (Thread : Type) where
  importsUsed : ℕ
  imports : ℕ → Import
  importMap : String → Option ℕ
  tasks : List Task
  position : Thread → Position
  /-- the paths of all `TASK_LEX_FILE` tasks so far -/
  lexed : List String

namespace State

variable {Thread : Type} [DecidableEq Thread]

def move (thread : Thread) (position : Position) (s : State Thread) : State Thread :=
  { s with position := Function.update s.position thread position }

def modifyImport (imp : ℕ) (f : Import → Import) (s : State Thread) : State Thread :=
  { s with imports := Function.update s.imports imp (f (s.imports imp)) }

def createImport (name : String) (s : State Thread) : ℕ × State Thread :=
  (s.importsUsed, { s with
    importsUsed := s.importsUsed + 1
    imports := Function.update s.imports s.importsUsed { name := name }
    importMap := Function.update s.importMap name (some s.importsUsed) })

/-- `task.imp->deps_count != task.imp->deps_now` means not ready. -/
def ready (s : State Thread) (task : Task) : Bool :=
  match task.imp with
  | none => true
  | some imp => (s.imports imp).depsCount = (s.imports imp).depsNow

/-- One waiting import in the loop over the fixups of `imp`. -/
def resolveFixup (imp : ℕ) (s : State Thread) (waiting : ℕ) : State Thread :=
  s.modifyImport waiting fun i =>
    { i with depsNow := i.depsNow + 1, sharedScopes := i.sharedScopes ++ [imp] }

/-- The block after `ParseTokenStream`: every import in the fixups of `imp` is told that
`imp` is parsed. -/
def resolveFixups (imp : ℕ) (s : State Thread) : State Thread :=
  ((s.imports imp).fixups.foldl (resolveFixup imp) s).modifyImport imp fun i =>
    { i with fixups := [] }

/-- `imp` waits for `dep`. -/
def waitFor (imp dep : ℕ) (s : State Thread) : State Thread :=
  (s.modifyImport dep fun i => { i with fixups := i.fixups ++ [imp] }).modifyImport imp fun i =>
    { i with depsCount := i.depsCount + 1 }

/-- The loop is done with the dependency `name`. -/
def register (imp : ℕ) (name : String) (s : State Thread) : State Thread :=
  s.modifyImport imp fun i => { i with registered := i.registered ++ [name] }

/-- The block for a dependency that `findImport` has found. -/
def linkImport (imp dep : ℕ) (s : State Thread) : State Thread :=
  if (s.imports dep).started then
    s.modifyImport imp fun i => { i with sharedScopes := i.sharedScopes ++ [dep] }
  else s.waitFor imp dep

def push (task : Task) (s : State Thread) : State Thread :=
  { s with tasks := s.tasks ++ [task] }

/-- A `TASK_LEX_FILE` for an import that was created. -/
def pushLexFile (name : String) (dep : ℕ) (s : State Thread) : State Thread :=
  { s.push { type := .lexFile, name := name, imp := some dep } with lexed := s.lexed ++ [name] }

/-- `imp->dependencies` after parsing. -/
def dependencies (files : String → SourceFile) (s : State Thread) (imp : ℕ) : List String :=
  (files (s.imports imp).name).imports.foldl addDependency []

/-- The next step of a thread.  `requeued` is what one of the other tasks leaves. -/
def next (files : String → SourceFile) (thread : Thread) (requeued : Option TaskType)
    (s : State Thread) : Option (State Thread) :=
  match s.position thread with
  | .idle => (takeFirst s.ready s.tasks).map fun taken =>
      { s with tasks := taken.2 }.move thread
        (if taken.1.type = TaskType.lexFile then .lexing taken.1 else .working taken.1)
  | .lexing task =>
      match task.imp with
      | some imp => some (s.move thread (.starting imp))
      | none => some ((s.createImport task.name).2.move thread (.starting s.importsUsed))
  | .starting imp =>
      some ((s.modifyImport imp fun i => { i with started := true }).move thread (.parsing imp))
  | .parsing imp =>
      some ((s.modifyImport imp fun i => { i with returned := true }).move thread (.parsed imp))
  | .parsed imp => some ((s.resolveFixups imp).move thread (.resolved imp))
  | .resolved imp =>
      some ((s.modifyImport imp fun i => { i with depsNow := 0, depsCount := 0 }).move thread
        (.registering imp (s.dependencies files imp)))
  | .registering imp [] =>
      some ((s.push { type := .checkStructs, name := (s.imports imp).name, imp := some imp }).move
        thread .idle)
  | .registering imp (name :: rest) => some (s.move thread (.found imp name rest (s.importMap name)))
  | .found imp name rest none =>
      some ((s.createImport name).2.move thread (.created imp name rest s.importsUsed))
  | .found imp name rest (some dep) =>
      some (((s.linkImport imp dep).register imp name).move thread (.registering imp rest))
  | .created imp name rest dep =>
      some ((((s.waitFor imp dep).register imp name).pushLexFile name dep).move thread
        (.registering imp rest))
  | .working task =>
      if requeued = some .lexFile then none
      else some ({ s with
        tasks := s.tasks ++ (requeued.map fun type => { task with type := type }).toList }.move
          thread .idle)

end State

/-- `CompileFile` before the threads start. -/
def start (Thread : Type) (initialFile : String) : State Thread where
  importsUsed := 1
  imports := Function.update (fun _ => {}) 0
    { name := "preload", started := true, returned := true }
  importMap := Function.update (fun _ => none) "preload" (some 0)
  tasks := [{ type := .checkStructs, name := "preload", imp := some 0 },
    { type := .lexFile, name := initialFile }]
  position := fun _ => .idle
  lexed := [initialFile]

/-- The interleavings of the threads. -/
def run (Thread : Type) [DecidableEq Thread] (files : String → SourceFile) (initialFile : String) :
    Transition (State Thread) where
  init s := s = start Thread initialFile
  step s s' := ∃ thread requeued, s.next files thread requeued = some s'

end TinCompiler.Registration
