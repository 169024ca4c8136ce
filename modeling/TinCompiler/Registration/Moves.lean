import TinCompiler.Registration.Steps

/-!
# What one step of a thread can do

`Move` lists the steps of `State.next` (`next_cases`), and the first lemmas say which fields
of the imports each of them changes.
-/

namespace TinCompiler.Registration

variable {Thread : Type} [DecidableEq Thread] {files : String → SourceFile} {thread other : Thread}
  {s s' : State Thread} {imp dep i : ℕ} {name : String}

namespace State

/-! ## The fields after each operation -/

section Fields

@[simp] theorem move_position_self (position : Position) :
    (s.move thread position).position thread = position :=
  Function.update_self ..

theorem move_position_of_ne (position : Position) (hne : other ≠ thread) :
    (s.move thread position).position other = s.position other :=
  Function.update_of_ne hne ..

theorem modifyImport_imports (f : Import → Import) (i : ℕ) :
    (s.modifyImport imp f).imports i = if i = imp then f (s.imports i) else s.imports i := by
  by_cases heq : i = imp
  · subst heq
    simp [modifyImport]
  · simp [modifyImport, heq]

theorem createImport_imports (i : ℕ) :
    (s.createImport name).2.imports i =
      if i = s.importsUsed then { name := name } else s.imports i := by
  by_cases heq : i = s.importsUsed
  · subst heq
    simp [createImport]
  · simp [createImport, heq]

theorem register_imports (i : ℕ) :
    (s.register imp name).imports i =
      { s.imports i with
        registered := if i = imp then (s.imports i).registered ++ [name]
          else (s.imports i).registered } := by
  rw [register, modifyImport_imports]
  by_cases heq : i = imp <;> simp [heq]

theorem waitFor_imports (i : ℕ) :
    (s.waitFor imp dep).imports i =
      { s.imports i with
        fixups := if i = dep then (s.imports i).fixups ++ [imp] else (s.imports i).fixups
        depsCount := if i = imp then (s.imports i).depsCount + 1
          else (s.imports i).depsCount } := by
  rw [waitFor, modifyImport_imports, modifyImport_imports]
  by_cases himp : i = imp
  · by_cases hdep : i = dep
    · simp only [himp, hdep, if_true]
      rw [← himp, hdep]
      simp
    · simp only [himp, if_true]
      rw [← himp]
      simp [hdep]
  · by_cases hdep : i = dep
    · simp only [hdep, if_true]
      rw [← hdep]
      simp [himp]
    · simp [himp, hdep]

theorem linkImport_imports (i : ℕ) :
    (s.linkImport imp dep).imports i =
      if (s.imports dep).started then
        { s.imports i with
          sharedScopes := if i = imp then (s.imports i).sharedScopes ++ [dep]
            else (s.imports i).sharedScopes }
      else (s.waitFor imp dep).imports i := by
  unfold linkImport
  split
  · rw [modifyImport_imports]
    by_cases heq : i = imp <;> simp [heq]
  · rfl

theorem foldl_resolveFixup_imports (fixups : List ℕ) (i : ℕ) : ∀ s : State Thread,
    (fixups.foldl (resolveFixup imp) s).imports i =
      { s.imports i with
        depsNow := (s.imports i).depsNow + fixups.count i
        sharedScopes := (s.imports i).sharedScopes ++ List.replicate (fixups.count i) imp } := by
  induction fixups with
  | nil => simp
  | cons waiting fixups ih =>
      intro s
      rw [List.foldl_cons, ih, resolveFixup, modifyImport_imports, List.count_cons]
      by_cases heq : i = waiting
      · subst heq
        simp [List.replicate_succ, Nat.add_assoc, Nat.add_comm]
      · simp [heq, Ne.symm heq]

theorem resolveFixups_imports (i : ℕ) :
    (s.resolveFixups imp).imports i =
      { s.imports i with
        depsNow := (s.imports i).depsNow + (s.imports imp).fixups.count i
        sharedScopes := (s.imports i).sharedScopes ++
          List.replicate ((s.imports imp).fixups.count i) imp
        fixups := if i = imp then [] else (s.imports i).fixups } := by
  rw [resolveFixups, modifyImport_imports, foldl_resolveFixup_imports]
  by_cases heq : i = imp <;> simp [heq]

/-- Everything but the imports is the same. -/
structure SameRest (s s' : State Thread) : Prop where
  importsUsed : s'.importsUsed = s.importsUsed
  importMap : s'.importMap = s.importMap
  tasks : s'.tasks = s.tasks
  position : s'.position = s.position
  lexed : s'.lexed = s.lexed

theorem SameRest.trans {s'' : State Thread} (h : SameRest s s') (h' : SameRest s' s'') :
    SameRest s s'' :=
  ⟨h'.importsUsed.trans h.importsUsed, h'.importMap.trans h.importMap, h'.tasks.trans h.tasks,
    h'.position.trans h.position, h'.lexed.trans h.lexed⟩

theorem sameRest_modifyImport (f : Import → Import) : SameRest s (s.modifyImport imp f) :=
  ⟨rfl, rfl, rfl, rfl, rfl⟩

theorem sameRest_waitFor : SameRest s (s.waitFor imp dep) :=
  (sameRest_modifyImport _).trans (sameRest_modifyImport _)

theorem sameRest_linkImport : SameRest s (s.linkImport imp dep) := by
  unfold linkImport
  split
  · exact sameRest_modifyImport _
  · exact sameRest_waitFor

theorem sameRest_resolveFixups : SameRest s (s.resolveFixups imp) := by
  have hfold : ∀ (fixups : List ℕ) (s : State Thread),
      SameRest s (fixups.foldl (resolveFixup imp) s) := by
    intro fixups
    induction fixups with
    | nil => exact fun s => ⟨rfl, rfl, rfl, rfl, rfl⟩
    | cons waiting fixups ih => exact fun s => (sameRest_modifyImport _).trans (ih _)
  exact (hfold _ _).trans (sameRest_modifyImport _)

end Fields

/-! ## The steps -/

/-- The steps of `thread` from `s`. -/
inductive Move (files : String → SourceFile) (thread : Thread) (s : State Thread) :
    State Thread → Prop where
  | take {task : Task} {rest : List Task} (hposition : s.position thread = .idle)
      (htaken : takeFirst s.ready s.tasks = some (task, rest)) :
      Move files thread s ({ s with tasks := rest }.move thread
        (if task.type = TaskType.lexFile then .lexing task else .working task))
  | begin {task : Task} {imp : ℕ} (hposition : s.position thread = .lexing task)
      (himp : task.imp = some imp) : Move files thread s (s.move thread (.starting imp))
  | beginFirst {task : Task} (hposition : s.position thread = .lexing task)
      (himp : task.imp = none) :
      Move files thread s
        ((s.createImport task.name).2.move thread (.starting s.importsUsed))
  | publish {imp : ℕ} (hposition : s.position thread = .starting imp) :
      Move files thread s
        ((s.modifyImport imp fun i => { i with started := true }).move thread (.parsing imp))
  | return {imp : ℕ} (hposition : s.position thread = .parsing imp) :
      Move files thread s
        ((s.modifyImport imp fun i => { i with returned := true }).move thread (.parsed imp))
  | resolve {imp : ℕ} (hposition : s.position thread = .parsed imp) :
      Move files thread s ((s.resolveFixups imp).move thread (.resolved imp))
  | reset {imp : ℕ} (hposition : s.position thread = .resolved imp) :
      Move files thread s
        ((s.modifyImport imp fun i => { i with depsNow := 0, depsCount := 0 }).move thread
          (.registering imp (s.dependencies files imp)))
  | queue {imp : ℕ} (hposition : s.position thread = .registering imp []) :
      Move files thread s
        ((s.push { type := .checkStructs, name := (s.imports imp).name, imp := some imp }).move
          thread .idle)
  | find {imp : ℕ} {name : String} {rest : List String}
      (hposition : s.position thread = .registering imp (name :: rest)) :
      Move files thread s (s.move thread (.found imp name rest (s.importMap name)))
  | create {imp : ℕ} {name : String} {rest : List String}
      (hposition : s.position thread = .found imp name rest none) :
      Move files thread s
        ((s.createImport name).2.move thread (.created imp name rest s.importsUsed))
  | link {imp dep : ℕ} {name : String} {rest : List String}
      (hposition : s.position thread = .found imp name rest (some dep)) :
      Move files thread s
        (((s.linkImport imp dep).register imp name).move thread (.registering imp rest))
  | wait {imp dep : ℕ} {name : String} {rest : List String}
      (hposition : s.position thread = .created imp name rest dep) :
      Move files thread s
        ((((s.waitFor imp dep).register imp name).pushLexFile name dep).move thread
          (.registering imp rest))
  | work {task : Task} {requeued : Option TaskType} (hposition : s.position thread = .working task)
      (htype : requeued ≠ some .lexFile) :
      Move files thread s ({ s with
        tasks := s.tasks ++ (requeued.map fun type => { task with type := type }).toList }.move
          thread .idle)

theorem next_cases {requeued : Option TaskType} (h : s.next files thread requeued = some s') :
    Move files thread s s' := by
  unfold next at h
  split at h
  · next hposition =>
      obtain ⟨⟨task, rest⟩, htaken, rfl⟩ := Option.map_eq_some_iff.mp h
      exact .take hposition htaken
  · next task hposition =>
      split at h
      · next imp himp =>
          obtain rfl := Option.some.inj h
          exact .begin hposition himp
      · next himp =>
          obtain rfl := Option.some.inj h
          exact .beginFirst hposition himp
  · next hposition => obtain rfl := Option.some.inj h; exact .publish hposition
  · next hposition => obtain rfl := Option.some.inj h; exact .return hposition
  · next hposition => obtain rfl := Option.some.inj h; exact .resolve hposition
  · next hposition => obtain rfl := Option.some.inj h; exact .reset hposition
  · next hposition => obtain rfl := Option.some.inj h; exact .queue hposition
  · next hposition => obtain rfl := Option.some.inj h; exact .find hposition
  · next hposition => obtain rfl := Option.some.inj h; exact .create hposition
  · next hposition => obtain rfl := Option.some.inj h; exact .link hposition
  · next hposition => obtain rfl := Option.some.inj h; exact .wait hposition
  · next task hposition =>
      split at h
      · cases h
      · next htype =>
          obtain rfl := Option.some.inj h
          exact .work hposition htype

/-! ## Runs that are given by the order of the threads -/

/-- The threads take their next steps in this order, each of them a step that `ok` accepts; no
task is queued again. -/
def exec (files : String → SourceFile) (ok : State Thread → State Thread → Bool) :
    List Thread → State Thread → Option (State Thread)
  | [], s => some s
  | thread :: threads, s => (s.next files thread none).bind fun s' =>
      if ok s s' then s'.exec files ok threads else none

theorem reachable_exec {initialFile : String} {ok : State Thread → State Thread → Bool}
    {threads : List Thread} {s s' : State Thread}
    (h : ((run Thread files initialFile).restrict fun s s' => ok s s' = true).Reachable s)
    (hexec : s.exec files ok threads = some s') :
    ((run Thread files initialFile).restrict fun s s' => ok s s' = true).Reachable s' := by
  induction threads generalizing s with
  | nil =>
      obtain rfl := Option.some.inj hexec
      exact h
  | cons thread threads ih =>
      obtain ⟨next, hnext, hrest⟩ := Option.bind_eq_some_iff.mp hexec
      split at hrest
      · next hok => exact ih (h.tail ⟨⟨thread, none, hnext⟩, hok⟩) hrest
      · cases hrest

end State

end TinCompiler.Registration
