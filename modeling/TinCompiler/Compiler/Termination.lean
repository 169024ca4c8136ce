import TinCompiler.Compiler.Invariant
import TinCompiler.Library.Rounds

/-!
# The task loop comes to an end

`processTasks` on any finite graph of imports.  A file that is found costs five, of which
its task keeps four, and every phase costs one; only a repeated `TASK_CHECK_STRUCTS` costs
nothing, and it has a structure less to complete or has used up its one pass without a
change (`step_measure_lt`).  In the end the queue is empty, since some task is always ready
(`tasks_eq_nil_of_stuck`).
-/

namespace TinCompiler

namespace Compiler

variable {files : String → SourceFile} {initialFile : String} {c c' : Compiler}
  {rest : List Task} {task : Task} {i : ℕ} {paths : Finset String} {body : FileBody}

/-! ## The measure -/

/-- The phases that are left for a task. -/
def TaskType.phases : TaskType → ℕ
  | .lexFile => 4
  | .checkStructs => 3
  | .checkFunctions => 2
  | .genFunctions => 1

/-- The phases that are left for all files. -/
def phases (paths : Finset String) (c : Compiler) : ℕ :=
  5 * unknown paths c + (c.tasks.map fun task => TaskType.phases task.type).sum

/-- What a `TASK_CHECK_STRUCTS` may be repeated for: two passes for each structure and one
without a change. -/
def retries (c : Compiler) (task : Task) : ℕ :=
  match task.type, task.imp.bind fun i => (c.imports i).body with
  | .checkStructs, some body => 2 * incomplete c.ast body + if task.noChange then 0 else 1
  | _, _ => 0

def allRetries (c : Compiler) : ℕ := (c.tasks.map c.retries).sum

theorem phases_perm (hperm : c.tasks.Perm (task :: rest)) :
    phases paths c = 5 * unknown paths c + (TaskType.phases task.type +
      (rest.map fun task => TaskType.phases task.type).sum) := by
  rw [phases, (hperm.map _).sum_eq, List.map_cons, List.sum_cons]

theorem allRetries_perm (hperm : c.tasks.Perm (task :: rest)) :
    allRetries c = c.retries task + (rest.map c.retries).sum := by
  rw [allRetries, (hperm.map _).sum_eq, List.map_cons, List.sum_cons]

theorem retries_of_body (htype : task.type = .checkStructs) (himp : task.imp = some i)
    (hbody : (c.imports i).body = some body) :
    c.retries task = 2 * incomplete c.ast body + if task.noChange then 0 else 1 := by
  simp [retries, htype, himp, hbody]

/-- Completed structures stay complete. -/
theorem retries_le (himports : c'.imports = c.imports)
    (hmono : ∀ s, (c.ast.structures s).complete = true →
      (c'.ast.structures s).complete = true) : c'.retries task ≤ c.retries task := by
  unfold retries
  rw [himports]
  split
  · exact Nat.add_le_add_right (Nat.mul_le_mul_left 2 (incomplete_le fun s _ => hmono s)) _
  · exact Nat.le_refl _

/-! ## One round -/

/-- A repeated pass: one more structure is complete, or the task has used its pass without a
change. -/
theorem checkStructs_retries (h : Sound files initialFile c (task :: rest))
    (htype : task.type = .checkStructs) (himp : task.imp = some i)
    (hbody : (c.imports i).body = some body) {task' : Task}
    (hqueued : (c.checkStructsTask task i body).1 = some task')
    (hrepeat : task'.type = .checkStructs) :
    (c.checkStructsTask task i body).2.retries task' < c.retries task := by
  have hpass := checkStructs_ast c.ast c.reporter body true
  have hbefore := retries_of_body htype himp hbody
  unfold checkStructsTask at hqueued ⊢
  dsimp only at hqueued ⊢
  cases hfailure : (checkStructs c.ast c.reporter body true).failure with
  | false =>
      simp only [hfailure, Bool.false_eq_true, if_false, Option.some.injEq] at hqueued
      rw [← hqueued] at hrepeat
      cases hrepeat
  | true =>
      simp only [hfailure, if_true] at hqueued ⊢
      split at hqueued
      · cases hqueued
      · next hretry =>
          rw [if_neg hretry]
          simp only [Option.some.injEq] at hqueued
          subst hqueued
          rw [hbefore]
          refine lt_of_eq_of_lt (retries_of_body htype himp hbody) ?_
          cases hchanged : (checkStructs c.ast c.reporter body true).changed with
          | true =>
              have hless := incomplete_lt_of_changed h.structs.table hchanged
              simp only [Bool.not_true, Bool.false_eq_true, if_false]
              omega
          | false =>
              have hfresh : task.noChange = false := by simpa [hchanged] using hretry
              have hle : incomplete (checkStructs c.ast c.reporter body true).ast body ≤
                  incomplete c.ast body := by
                refine incomplete_le fun s _ hcomplete => ?_
                rw [hpass, (extends_attempts h.structs.table body.structures).complete s hcomplete]
                exact hcomplete
              simp only [hfresh, Bool.not_false, Bool.false_eq_true, if_true, if_false]
              omega

/-- What `TASK_CHECK_STRUCTS` leaves for the others. -/
theorem checkStructsTask_fields (h : TableInvariant c.ast) (htype : task.type = .checkStructs)
    (i : ℕ) (body : FileBody) :
    (c.checkStructsTask task i body).2.tasks = c.tasks ∧
    (c.checkStructsTask task i body).2.imports = c.imports ∧
    (c.checkStructsTask task i body).2.importMap = c.importMap ∧
    (∀ s, (c.ast.structures s).complete = true →
      ((c.checkStructsTask task i body).2.ast.structures s).complete = true) ∧
    ∀ task' ∈ (c.checkStructsTask task i body).1, task'.name = task.name ∧
      (task'.type = .checkStructs ∨ task'.type = .checkFunctions) := by
  have hmono : ∀ {ast : AST} (reporter : Reporter) (ignoreErrors : Bool), TableInvariant ast →
      ∀ s, (ast.structures s).complete = true →
        ((checkStructs ast reporter body ignoreErrors).ast.structures s).complete = true := by
    intro ast reporter ignoreErrors htable s hcomplete
    rw [checkStructs_ast, (extends_attempts htable body.structures).complete s hcomplete]
    exact hcomplete
  have htable : TableInvariant (checkStructs c.ast c.reporter body true).ast := by
    rw [checkStructs_ast]
    exact h.attempts _
  unfold checkStructsTask
  dsimp only
  split
  · split
    · refine ⟨rfl, rfl, rfl, fun s hcomplete => ?_, by simp⟩
      exact hmono _ _ htable s (hmono _ _ h s hcomplete)
    · refine ⟨rfl, rfl, rfl, fun s hcomplete => hmono _ _ h s hcomplete, fun task' ht => ?_⟩
      obtain rfl := Option.mem_some.mp ht
      exact ⟨rfl, Or.inl htype⟩
  · refine ⟨rfl, rfl, rfl, fun s hcomplete => hmono _ _ h s hcomplete, fun task' ht => ?_⟩
    obtain rfl := Option.mem_some.mp ht
    exact ⟨rfl, Or.inr rfl⟩

/-- The order of the measure: phases first, then retries. -/
def Less : ℕ × ℕ → ℕ × ℕ → Prop := Prod.Lex (· < ·) (· < ·)

theorem less_wf : WellFounded Less := WellFounded.prod_lex Nat.lt_wfRel.wf Nat.lt_wfRel.wf

/-- The invariant of the proof: every file that is to be parsed belongs to the graph. -/
structure Within (files : String → SourceFile) (initialFile : String) (paths : Finset String)
    (c : Compiler) : Prop where
  sound : Sound files initialFile c c.tasks
  paths : ∀ task ∈ c.tasks, task.type = .lexFile → task.name ∈ paths

/-- What a processed task leaves, against the queue `c.tasks` behind it: less to do, and
nothing outside the graph. -/
structure Descends (paths : Finset String) (c : Compiler) (task : Task)
    (processed : Option Task × Compiler) : Prop where
  less : Less
    (phases paths { processed.2 with tasks := processed.2.tasks ++ processed.1.toList },
      allRetries { processed.2 with tasks := processed.2.tasks ++ processed.1.toList })
    (phases paths { c with tasks := task :: c.tasks }, allRetries { c with tasks := task :: c.tasks })
  paths : ∀ queued ∈ processed.2.tasks ++ processed.1.toList,
    queued ∈ c.tasks ∨ (queued.type = .lexFile → queued.name ∈ paths)

theorem phases_before : phases paths { c with tasks := task :: c.tasks } =
    5 * unknown paths c + (TaskType.phases task.type +
      (c.tasks.map fun task => TaskType.phases task.type).sum) :=
  rfl

/-- A task that finds no file and goes on to a later phase, or leaves the queue. -/
theorem Descends.next {processed : Option Task × Compiler} (htasks : processed.2.tasks = c.tasks)
    (hmap : processed.2.importMap = c.importMap)
    (hnext : ∀ task' ∈ processed.1, TaskType.phases task'.type < TaskType.phases task.type ∧
      task'.type ≠ .lexFile) : Descends paths c task processed := by
  have hunknown : unknown paths { processed.2 with
      tasks := processed.2.tasks ++ processed.1.toList } = unknown paths c := by
    simp only [unknown, hmap]
  refine ⟨Prod.Lex.left _ _ ?_, fun queued hmem => ?_⟩
  · rw [phases_before, phases, hunknown, htasks, List.map_append, List.sum_append]
    cases hcase : processed.1 with
    | none =>
        have hpos : 0 < TaskType.phases task.type := by cases task.type <;> decide
        simp only [Option.toList_none, List.map_nil, List.sum_nil]
        omega
    | some task' =>
        have hless := (hnext task' (by rw [hcase]; rfl)).1
        simp only [Option.toList_some, List.map_singleton, List.sum_singleton]
        omega
  · rw [htasks, List.mem_append, Option.mem_toList] at hmem
    exact hmem.imp_right fun hmem hlex => absurd hlex (hnext queued hmem).2

theorem sum_phases_lexFile {tasks : List Task} (hlex : ∀ task ∈ tasks, task.type = .lexFile) :
    (tasks.map fun task => TaskType.phases task.type).sum = 4 * tasks.length := by
  induction tasks with
  | nil => rfl
  | cons task tasks ih =>
      rw [List.map_cons, List.sum_cons, ih fun other ht => hlex other (List.mem_cons_of_mem _ ht),
        hlex task (List.mem_cons_self ..), List.length_cons]
      simp only [TaskType.phases]
      omega

/-- Every file that is found is paid for by its path. -/
theorem descends_lexFile
    (hclosed : ∀ path ∈ paths, ∀ dep ∈ (files path).imports, dep ∈ paths)
    (h : Sound files initialFile c (task :: c.tasks)) (htype : task.type = .lexFile)
    (htask : task.name ∈ paths) : Descends paths c task (c.lexFileTask files task) := by
  obtain ⟨imp, new, hqueued, htasks, -, -, -, hdiscovered⟩ := h.lexFile htype
  have hnames := hclosed task.name htask
  have hunknown := hdiscovered.unknown paths hnames
  have hsum := sum_phases_lexFile fun other hother => (hdiscovered.types other hother).1
  refine ⟨Prod.Lex.left _ _ ?_, fun queued hmem => ?_⟩
  · have hafter : unknown paths { (c.lexFileTask files task).2 with
        tasks := c.tasks ++ new ++ [{ task with type := .checkStructs, imp := some imp }] } =
          unknown paths (c.lexFileTask files task).2 := rfl
    rw [phases_before, phases, htasks, hqueued, Option.toList_some, hafter, List.map_append,
      List.sum_append, List.map_append, List.sum_append, hsum, List.map_singleton,
      List.sum_singleton, htype]
    simp only [TaskType.phases]
    omega
  · simp only [htasks, hqueued, Option.toList_some, List.mem_append, List.mem_singleton] at hmem
    rcases hmem with (hmem | hmem) | rfl
    · exact Or.inl hmem
    · exact Or.inr fun _ => hnames _ (hdiscovered.types queued hmem).2.1
    · exact Or.inr fun hlex => by cases hlex

theorem sum_map_le {f g : Task → ℕ} {tasks : List Task} (h : ∀ task, f task ≤ g task) :
    (tasks.map f).sum ≤ (tasks.map g).sum := by
  induction tasks with
  | nil => exact Nat.le_refl _
  | cons task tasks ih =>
      rw [List.map_cons, List.map_cons, List.sum_cons, List.sum_cons]
      exact Nat.add_le_add (h task) ih

/-- A pass that is repeated has used up a retry. -/
theorem descends_checkStructs (h : Sound files initialFile c (task :: c.tasks))
    (htype : task.type = .checkStructs) (himp : task.imp = some i)
    (hbody : (c.imports i).body = some body) :
    Descends paths c task (c.checkStructsTask task i body) := by
  obtain ⟨htasks, himports, hmap, hmono, hqueued⟩ :=
    checkStructsTask_fields h.structs.table htype i body
  by_cases hrepeat : ∃ task', (c.checkStructsTask task i body).1 = some task' ∧
      task'.type = .checkStructs
  · obtain ⟨task', hnext, hagain⟩ := hrepeat
    refine ⟨?_, fun queued hmem => ?_⟩
    · have hunknown : unknown paths { (c.checkStructsTask task i body).2 with
          tasks := c.tasks ++ [task'] } = unknown paths c := by
        simp only [unknown, hmap]
      rw [htasks, hnext, Option.toList_some]
      have hphases : phases paths { (c.checkStructsTask task i body).2 with
          tasks := c.tasks ++ [task'] } = phases paths { c with tasks := task :: c.tasks } := by
        rw [phases_before, phases, hunknown, List.map_append, List.sum_append, List.map_singleton,
          List.sum_singleton, hagain, htype]
        omega
      rw [hphases]
      refine Prod.Lex.right _ ?_
      have hown := checkStructs_retries h htype himp hbody hnext hagain
      have hothers : (c.tasks.map (c.checkStructsTask task i body).2.retries).sum ≤
          (c.tasks.map c.retries).sum := sum_map_le fun _ => retries_le himports hmono
      calc allRetries { (c.checkStructsTask task i body).2 with tasks := c.tasks ++ [task'] }
          = (c.tasks.map (c.checkStructsTask task i body).2.retries).sum +
              (c.checkStructsTask task i body).2.retries task' := by
            change ((c.tasks ++ [task']).map (c.checkStructsTask task i body).2.retries).sum = _
            rw [List.map_append, List.sum_append, List.map_singleton, List.sum_singleton]
        _ < c.retries task + (c.tasks.map c.retries).sum := by omega
        _ = allRetries { c with tasks := task :: c.tasks } := rfl
    · rw [htasks, List.mem_append, Option.mem_toList, hnext] at hmem
      refine hmem.imp_right fun hmem hlex => ?_
      obtain rfl := Option.mem_some.mp hmem
      rw [hagain] at hlex
      cases hlex
  · refine .next htasks hmap fun task' ht => ?_
    rcases (hqueued task' ht).2 with hagain | hdone
    · exact absurd ⟨task', ht, hagain⟩ hrepeat
    · rw [hdone, htype]
      exact ⟨by decide, by decide⟩

theorem descends_process (hclosed : ∀ path ∈ paths, ∀ dep ∈ (files path).imports, dep ∈ paths)
    (h : Sound files initialFile c (task :: c.tasks))
    (htask : task.type = .lexFile → task.name ∈ paths) :
    Descends paths c task (c.process files task) := by
  by_cases htype : task.type = .lexFile
  · rw [process_lexFile htype]
    exact descends_lexFile hclosed h htype (htask htype)
  · obtain ⟨i, body, himp, hbody⟩ := h.body_of_task htype
    obtain ⟨hstructs, hfunctions, hgen⟩ := process_of_body files himp hbody
    cases hcase : task.type with
    | lexFile => exact absurd hcase htype
    | checkStructs =>
        rw [hstructs hcase]
        exact descends_checkStructs h hcase himp hbody
    | checkFunctions =>
        rw [hfunctions hcase]
        refine .next rfl rfl fun task' ht => ?_
        rcases (kept_checkFunctionsTask task i body c).2 with hnext | ⟨hnext, -⟩
        · rw [hnext] at ht
          obtain rfl := Option.mem_some.mp ht
          exact ⟨by rw [hcase]; exact Nat.lt_succ_self 1, by simp⟩
        · rw [hnext] at ht
          cases ht
    | genFunctions =>
        rw [hgen hcase]
        exact .next rfl rfl fun task' ht => by cases ht

theorem step_measure_lt (hclosed : ∀ path ∈ paths, ∀ dep ∈ (files path).imports, dep ∈ paths)
    (h : Within files initialFile paths c) (hstep : c.step files = some c') :
    Less (phases paths c', allRetries c') (phases paths c, allRetries c) ∧
      Within files initialFile paths c' := by
  obtain ⟨task, rest, -, hperm, heq⟩ := step_cases hstep
  have hlive : Sound files initialFile { c with tasks := rest } (task :: rest) :=
    (h.sound.perm hperm).setTasks rest
  have htask : task.type = .lexFile → task.name ∈ paths :=
    h.paths task (hperm.mem_iff.mpr (List.mem_cons_self ..))
  obtain ⟨hless, hpaths⟩ := descends_process hclosed hlive htask
  refine ⟨?_, h.sound.step hstep, fun queued hmem hlex => ?_⟩
  · rw [phases_perm hperm, allRetries_perm hperm, heq]
    exact hless
  · rw [heq] at hmem
    rcases hpaths queued hmem with hold | hnew
    · exact h.paths queued (hperm.mem_iff.mpr (List.mem_cons_of_mem _ hold)) hlex
    · exact hnew hlex

/-! ## The end of a run -/

/-- Some task is always ready. -/
theorem tasks_eq_nil_of_stuck (h : Sound files initialFile c c.tasks)
    (hstuck : c.step files = none) : c.tasks = [] := by
  have hnone : ∀ task ∈ c.tasks, c.ready task = false := by
    unfold step at hstuck
    exact takeFirst_eq_none_iff.mp (Option.map_eq_none_iff.mp hstuck)
  -- a file that is to be parsed waits for nothing
  have hlex : ∀ task ∈ c.tasks, task.type ≠ .lexFile := by
    intro task ht htype
    have hready := hnone task ht
    unfold ready at hready
    cases himp : task.imp with
    | none => simp [himp] at hready
    | some i =>
        obtain ⟨hcount, hnow, -⟩ := h.imports.blank i ((h.queue.parsed task ht i himp).2.mpr htype)
        simp [himp, hcount, hnow] at hready
  -- so that every file is parsed
  have hparsed : ∀ i < c.importsUsed, (c.imports i).body ≠ none := by
    intro i hi hbody
    have hqueued : ∀ type, ¬ Queued c.tasks type i := by
      rintro type ⟨task, ht, -, himp⟩
      exact hlex task ht ((h.queue.parsed task ht i himp).2.mp hbody)
    cases h.queue.stage i hi with
    | parsing queued => exact hqueued _ queued
    | checkingStructs queued => exact hqueued _ queued
    | structsFailed idle errors incomplete =>
        obtain ⟨body, hsome, -⟩ := incomplete
        rw [hbody] at hsome
        cases hsome
    | checkingFunctions queued => exact hqueued _ queued
    | generating queued => exact hqueued _ queued
    | functionsFailed idle errors finished checked =>
        exact (h.queue.checked i checked).2 hbody
    | done idle finished checked => exact (h.queue.checked i checked).2 hbody
  cases htasks : c.tasks with
  | nil => rfl
  | cons task rest =>
      have ht : task ∈ c.tasks := by rw [htasks]; exact List.mem_cons_self ..
      have hready := hnone task ht
      unfold ready at hready
      cases himp : task.imp with
      | none => simp [himp] at hready
      | some i => simp [himp, h.imports.ready_of_all_parsed hparsed i] at hready

theorem processTasks_eq_rounds (n : ℕ) (c : Compiler) :
    c.processTasks files n = rounds (step files) n c := by
  induction n generalizing c with
  | zero => rfl
  | succ n ih =>
      unfold processTasks rounds
      cases c.step files with
      | none => rfl
      | some c' => exact ih c'

theorem within_start (files : String → SourceFile) (hinitial : initialFile ∈ paths) :
    Within files initialFile paths (start initialFile) := by
  refine ⟨sound_start, fun task ht htype => ?_⟩
  rcases List.mem_cons.mp ht with rfl | ht
  · cases htype
  · obtain rfl := List.mem_singleton.mp ht
    exact hinitial

/-- The loop ends with an empty queue, and every import has been generated unless an error
was reported. -/
theorem processTasks_ends (hinitial : initialFile ∈ paths)
    (hclosed : ∀ path ∈ paths, ∀ dep ∈ (files path).imports, dep ∈ paths) :
    ∃ n, ((start initialFile).processTasks files n).step files = none ∧
      ((start initialFile).processTasks files n).tasks = [] ∧
      ∀ i < ((start initialFile).processTasks files n).importsUsed,
        (.genFunctions, i) ∈ ((start initialFile).processTasks files n).processed ∨
        ((start initialFile).processTasks files n).reporter.errors ≠ 0 := by
  obtain ⟨n, hn⟩ := exists_rounds less_wf (fun c => (phases paths c, allRetries c))
    (fun _ _ h hstep => (step_measure_lt hclosed h hstep).2)
    (fun _ _ h hstep => (step_measure_lt hclosed h hstep).1) (within_start files hinitial)
  have hsound : Sound files initialFile (rounds (step files) n (start initialFile))
      (rounds (step files) n (start initialFile)).tasks :=
    (rounds_invariant (fun _ _ h hstep => (step_measure_lt hclosed h hstep).2) n
      (within_start files hinitial)).sound
  rw [← processTasks_eq_rounds] at hn hsound
  have hempty := tasks_eq_nil_of_stuck hsound hn
  refine ⟨n, hn, hempty, fun i hi => ?_⟩
  rw [hempty] at hsound
  have hnone : ∀ type, ¬ Queued [] type i := by simp [Queued]
  cases hsound.queue.stage i hi with
  | parsing queued => exact absurd queued (hnone _)
  | checkingStructs queued => exact absurd queued (hnone _)
  | structsFailed idle errors => exact Or.inr errors
  | checkingFunctions queued => exact absurd queued (hnone _)
  | generating queued => exact absurd queued (hnone _)
  | functionsFailed idle errors => exact Or.inr errors
  | done idle finished checked generated => exact Or.inl generated

/-- Two files that import each other. -/
theorem processTasks_ends_mutual :
    let files : String → SourceFile := fun path =>
      if path = "a" then { imports := ["b"] } else { imports := ["a"] }
    ∃ n, ((start "a").processTasks files n).step files = none ∧
      ((start "a").processTasks files n).tasks = [] ∧
      ∀ i < ((start "a").processTasks files n).importsUsed,
        (.genFunctions, i) ∈ ((start "a").processTasks files n).processed ∨
        ((start "a").processTasks files n).reporter.errors ≠ 0 :=
  processTasks_ends (show "a" ∈ ({"a", "b"} : Finset String) by decide) (by decide)

end Compiler

end TinCompiler
