import TinCompiler.Registration.OneImport
import Mathlib.Algebra.BigOperators.Group.Finset.Basic
import Mathlib.Algebra.BigOperators.Group.Finset.Piecewise
import Mathlib.Algebra.Order.BigOperators.Group.Finset

/-!
# A file waits for the files it imports

`imp->body` is set when `ParseTokenStream` starts, and a file that registers a dependency
takes it as the sign that the dependency is parsed.  Registered at that moment, the dependency
is not waited for (`not_waits`).  In the runs in which no dependency is half parsed when it is
registered, a `TASK_CHECK_STRUCTS` is only taken when every file that the file imports is
parsed and linked once (`waits_of_whole`): for each path, the links and the fixups together
are as many as the registrations (`Balance.balanced`).
-/

namespace TinCompiler.Registration

open Finset

variable {Thread : Type} [DecidableEq Thread] {files : String → SourceFile} {initialFile : String}
  {thread : Thread} {s s' : State Thread} {imp dep : ℕ} {name : String}

/-- If the next task checks the structures of a file, each of the paths that it imports is in
its shared scopes exactly once, with an import whose `ParseTokenStream` has returned. -/
def WaitsForImports (files : String → SourceFile) (s : State Thread) : Prop :=
  ∀ task rest imp, takeFirst s.ready s.tasks = some (task, rest) → task.type = .checkStructs →
    task.imp = some imp → imp ≠ 0 → ∀ name ∈ s.dependencies files imp, ∃ dep,
      (s.imports imp).sharedScopes.filter (fun dep => (s.imports dep).name = name) = [dep] ∧
      (s.imports dep).returned = true

/-- The dependency that a thread is about to register is not half parsed. -/
def Position.Whole (s : State Thread) : Position → Prop
  | found _ _ _ (some dep) => (s.imports dep).started = true → (s.imports dep).returned = true
  | _ => True

/-- No thread registers a dependency that is half parsed. -/
def Whole (s s' : State Thread) : Prop :=
  ∀ thread, s'.position thread ≠ s.position thread → (s.position thread).Whole s

/-! ## Each import is in one place -/

/-- The imports that a thread works on; `none` is the first file, which has no import yet. -/
def Position.tokens : Position → List (Option ℕ)
  | idle => []
  | lexing task | working task => [task.imp]
  | starting imp | parsing imp | parsed imp | resolved imp | registering imp _
  | found imp _ _ _ => [some imp]
  | created imp _ _ dep => [some imp, some dep]

/-- No import is in the queue twice, with two threads, or in the queue and with a thread. -/
structure Apart (s : State Thread) : Prop where
  tasksOnce : (s.tasks.map Task.imp).Nodup
  threads : ∀ thread, ∀ token ∈ (s.position thread).tokens, token ∉ s.tasks.map Task.imp
  disjoint : ∀ thread other, thread ≠ other → ∀ token ∈ (s.position thread).tokens,
    token ∉ (s.position other).tokens
  used : ∀ thread i, some i ∈ (s.position thread).tokens → i < s.importsUsed
  queued : ∀ task ∈ s.tasks, ∀ i, task.imp = some i → i < s.importsUsed

namespace Apart

/-- The thread moves on with what it had, and with imports that are new. -/
theorem move (h : Apart s) (position : Position)
    (hposition : s'.position = Function.update s.position thread position)
    (htasks : s'.tasks = s.tasks) (hused : s.importsUsed ≤ s'.importsUsed)
    (htokens : ∀ token ∈ position.tokens, token ∈ (s.position thread).tokens ∨
      ∃ i, token = some i ∧ s.importsUsed ≤ i ∧ i < s'.importsUsed) : Apart s' := by
  have hself : s'.position thread = position := by rw [hposition, Function.update_self]
  have hother : ∀ other, other ≠ thread → s'.position other = s.position other :=
    fun other hne => by rw [hposition, Function.update_of_ne hne]
  have hnew : ∀ i, s.importsUsed ≤ i → some i ∉ s.tasks.map Task.imp := by
    intro i hle hmem
    obtain ⟨task, ht, himp⟩ := List.mem_map.mp hmem
    exact absurd (h.queued task ht i himp) (Nat.not_lt.mpr hle)
  have hnew' : ∀ i, s.importsUsed ≤ i → ∀ other, some i ∉ (s.position other).tokens :=
    fun i hle other hmem => absurd (h.used other i hmem) (Nat.not_lt.mpr hle)
  refine ⟨by rw [htasks]; exact h.tasksOnce, ?_, ?_, ?_, ?_⟩
  · intro t token hmem
    rw [htasks]
    by_cases ht : t = thread
    · rw [ht, hself] at hmem
      rcases htokens token hmem with hold | ⟨i, rfl, hle, -⟩
      · exact h.threads thread token hold
      · exact hnew i hle
    · rw [hother t ht] at hmem
      exact h.threads t token hmem
  · intro t u hne token ht hu
    by_cases htt : t = thread
    · have hut : u ≠ thread := fun heq => hne (htt.trans heq.symm)
      rw [htt, hself] at ht
      rw [hother u hut] at hu
      rcases htokens token ht with hold | ⟨i, rfl, hle, -⟩
      · exact h.disjoint thread u hut.symm token hold hu
      · exact hnew' i hle u hu
    · rw [hother t htt] at ht
      by_cases hut : u = thread
      · rw [hut, hself] at hu
        rcases htokens token hu with hold | ⟨i, rfl, hle, -⟩
        · exact h.disjoint t thread htt token ht hold
        · exact hnew' i hle t ht
      · rw [hother u hut] at hu
        exact h.disjoint t u hne token ht hu
  · intro t i hmem
    by_cases ht : t = thread
    · rw [ht, hself] at hmem
      rcases htokens _ hmem with hold | ⟨j, heq, -, hlt⟩
      · exact Nat.lt_of_lt_of_le (h.used thread i hold) hused
      · rwa [Option.some.inj heq]
    · rw [hother t ht] at hmem
      exact Nat.lt_of_lt_of_le (h.used t i hmem) hused
  · intro task ht i himp
    rw [htasks] at ht
    exact Nat.lt_of_lt_of_le (h.queued task ht i himp) hused

/-- The thread takes a task out of the queue. -/
theorem take (h : Apart s) {task : Task} {rest : List Task}
    (hperm : s.tasks.Perm (task :: rest)) (position : Position)
    (hposition : s'.position = Function.update s.position thread position)
    (htokens : position.tokens = [task.imp]) (htasks : s'.tasks = rest)
    (hused : s'.importsUsed = s.importsUsed) : Apart s' := by
  have hself : s'.position thread = position := by rw [hposition, Function.update_self]
  have hother : ∀ other, other ≠ thread → s'.position other = s.position other :=
    fun other hne => by rw [hposition, Function.update_of_ne hne]
  have hmem : ∀ token, token ∈ s.tasks.map Task.imp ↔ token = task.imp ∨ token ∈ rest.map Task.imp :=
    fun token => by rw [(hperm.map _).mem_iff, List.map_cons, List.mem_cons]
  have honce : (task.imp :: rest.map Task.imp).Nodup := by
    rw [← List.map_cons]
    exact ((hperm.map _).nodup_iff).mp h.tasksOnce
  obtain ⟨hnot, hrest⟩ := List.nodup_cons.mp honce
  refine ⟨by rw [htasks]; exact hrest, ?_, ?_, ?_, ?_⟩
  · intro t token htoken
    rw [htasks]
    by_cases ht : t = thread
    · rw [ht, hself, htokens] at htoken
      obtain rfl := List.mem_singleton.mp htoken
      exact hnot
    · rw [hother t ht] at htoken
      exact fun hin => h.threads t token htoken ((hmem token).mpr (Or.inr hin))
  · intro t u hne token ht hu
    by_cases htt : t = thread
    · have hut : u ≠ thread := fun heq => hne (htt.trans heq.symm)
      rw [htt, hself, htokens] at ht
      rw [hother u hut] at hu
      obtain rfl := List.mem_singleton.mp ht
      exact h.threads u _ hu ((hmem _).mpr (Or.inl rfl))
    · rw [hother t htt] at ht
      by_cases hut : u = thread
      · rw [hut, hself, htokens] at hu
        obtain rfl := List.mem_singleton.mp hu
        exact h.threads t _ ht ((hmem _).mpr (Or.inl rfl))
      · rw [hother u hut] at hu
        exact h.disjoint t u hne token ht hu
  · intro t i htoken
    rw [hused]
    by_cases ht : t = thread
    · rw [ht, hself, htokens] at htoken
      exact h.queued task (hperm.mem_iff.mpr (List.mem_cons_self ..)) i
        (List.mem_singleton.mp htoken).symm
    · rw [hother t ht] at htoken
      exact h.used t i htoken
  · intro other ht i himp
    rw [htasks] at ht
    rw [hused]
    exact h.queued other (hperm.mem_iff.mpr (List.mem_cons_of_mem _ ht)) i himp

/-- The thread hands one of its imports over to the queue, or lets it go. -/
theorem push (h : Apart s) (position : Position)
    (hposition : s'.position = Function.update s.position thread position)
    (queued : Option Task) (htasks : s'.tasks = s.tasks ++ queued.toList)
    (hused : s'.importsUsed = s.importsUsed)
    (htokens : ∀ token ∈ position.tokens, token ∈ (s.position thread).tokens)
    (hqueued : ∀ task ∈ queued, task.imp ∈ (s.position thread).tokens ∧
      task.imp ∉ position.tokens) : Apart s' := by
  have hself : s'.position thread = position := by rw [hposition, Function.update_self]
  have hother : ∀ other, other ≠ thread → s'.position other = s.position other :=
    fun other hne => by rw [hposition, Function.update_of_ne hne]
  have hmem : ∀ token, token ∈ s'.tasks.map Task.imp ↔
      token ∈ s.tasks.map Task.imp ∨ ∃ task ∈ queued, task.imp = token := by
    intro token
    rw [htasks, List.map_append, List.mem_append, List.mem_map (l := queued.toList)]
    simp only [Option.mem_toList]
    exact Iff.rfl
  refine ⟨?_, ?_, ?_, ?_, ?_⟩
  · rw [htasks, List.map_append]
    refine List.nodup_append.mpr ⟨h.tasksOnce, ?_, fun a ha b hb heq => ?_⟩
    · cases queued <;> simp
    · obtain ⟨task, ht, rfl⟩ := List.mem_map.mp hb
      rw [Option.mem_toList] at ht
      exact h.threads thread _ (hqueued task ht).1 (heq ▸ ha)
  · intro t token htoken hin
    by_cases ht : t = thread
    · rw [ht, hself] at htoken
      rcases (hmem token).mp hin with hold | ⟨task, htask, rfl⟩
      · exact h.threads thread token (htokens token htoken) hold
      · exact (hqueued task htask).2 htoken
    · rw [hother t ht] at htoken
      rcases (hmem token).mp hin with hold | ⟨task, htask, rfl⟩
      · exact h.threads t token htoken hold
      · exact h.disjoint t thread ht _ htoken (hqueued task htask).1
  · intro t u hne token ht hu
    by_cases htt : t = thread
    · have hut : u ≠ thread := fun heq => hne (htt.trans heq.symm)
      rw [htt, hself] at ht
      rw [hother u hut] at hu
      exact h.disjoint thread u hut.symm token (htokens token ht) hu
    · rw [hother t htt] at ht
      by_cases hut : u = thread
      · rw [hut, hself] at hu
        exact h.disjoint t thread htt token ht (htokens token hu)
      · rw [hother u hut] at hu
        exact h.disjoint t u hne token ht hu
  · intro t i htoken
    rw [hused]
    by_cases ht : t = thread
    · rw [ht, hself] at htoken
      exact h.used thread i (htokens _ htoken)
    · rw [hother t ht] at htoken
      exact h.used t i htoken
  · intro task ht i himp
    rw [hused]
    rw [htasks, List.mem_append, Option.mem_toList] at ht
    rcases ht with hold | hnew
    · exact h.queued task hold i himp
    · refine h.used thread i ?_
      rw [← himp]
      exact (hqueued task hnew).1

end Apart

/-! ## How far each import is -/

theorem nodup_dependencies (paths : List String) : ∀ dependencies : List String,
    dependencies.Nodup → (paths.foldl addDependency dependencies).Nodup := by
  induction paths with
  | nil => exact fun _ h => h
  | cons path paths ih =>
      intro dependencies h
      refine ih _ ?_
      unfold addDependency
      split
      · exact h
      · next hnot =>
          refine List.nodup_append.mpr ⟨h, by simp, ?_⟩
          simpa using fun a ha => ne_of_mem_of_not_mem ha hnot

/-- A task in the queue or with a thread: a file to parse has registered nothing, a file
that is checked has registered all its dependencies. -/
def TaskProgress (files : String → SourceFile) (s : State Thread) (task : Task) : Prop :=
  ∀ i, task.imp = some i →
    if task.type = .lexFile then (s.imports i).registered = []
    else i ≠ 0 → (s.imports i).registered = s.dependencies files i

/-- The dependencies that are left to register, at each position. -/
def Progress (files : String → SourceFile) (s : State Thread) : Position → Prop
  | .idle => True
  | .lexing task => ∀ i, task.imp = some i → (s.imports i).registered = []
  | .working task => ∀ i, task.imp = some i → i ≠ 0 →
      (s.imports i).registered = s.dependencies files i
  | .starting imp | .parsing imp => (s.imports imp).registered = []
  | .parsed imp | .resolved imp =>
      (s.imports imp).registered = [] ∧ (s.imports imp).returned = true
  | .registering imp rest =>
      s.dependencies files imp = (s.imports imp).registered ++ rest
  | .found imp name rest dep =>
      s.dependencies files imp = (s.imports imp).registered ++ name :: rest ∧
        ∀ d, dep = some d → d < s.importsUsed ∧ (s.imports d).name = name
  | .created imp name rest dep =>
      s.dependencies files imp = (s.imports imp).registered ++ name :: rest ∧ imp ≠ dep ∧
        (s.imports dep).name = name ∧ (s.imports dep).registered = []

/-- What `Progress` reads of an import is the same. -/
structure SameImport (s s' : State Thread) (i : ℕ) : Prop where
  name : (s'.imports i).name = (s.imports i).name
  registered : (s'.imports i).registered = (s.imports i).registered
  returned : (s.imports i).returned = true → (s'.imports i).returned = true

omit [DecidableEq Thread] in
theorem SameImport.dependencies (h : SameImport s s' imp) :
    s'.dependencies files imp = s.dependencies files imp := by
  simp only [State.dependencies, h.name]

omit [DecidableEq Thread] in
/-- A position is not concerned by a step that leaves its imports. -/
theorem Progress.congr {position : Position} (h : Progress files s position)
    (hused : s.importsUsed ≤ s'.importsUsed)
    (hname : ∀ i < s.importsUsed, (s'.imports i).name = (s.imports i).name)
    (hsame : ∀ i, some i ∈ position.tokens → SameImport s s' i) :
    Progress files s' position := by
  cases position with
  | idle => trivial
  | lexing task =>
      intro i himp
      rw [(hsame i (by simp [Position.tokens, himp])).registered]
      exact h i himp
  | working task =>
      intro i himp hzero
      have hi := hsame i (by simp [Position.tokens, himp])
      rw [hi.registered, hi.dependencies]
      exact h i himp hzero
  | starting imp =>
      exact (hsame imp (by simp [Position.tokens])).registered.trans h
  | parsing imp =>
      exact (hsame imp (by simp [Position.tokens])).registered.trans h
  | parsed imp =>
      have hi := hsame imp (by simp [Position.tokens])
      exact ⟨hi.registered.trans h.1, hi.returned h.2⟩
  | resolved imp =>
      have hi := hsame imp (by simp [Position.tokens])
      exact ⟨hi.registered.trans h.1, hi.returned h.2⟩
  | registering imp rest =>
      have hi := hsame imp (by simp [Position.tokens])
      change s'.dependencies files imp = (s'.imports imp).registered ++ rest
      rw [hi.dependencies, hi.registered]
      exact h
  | found imp name rest dep =>
      have hi := hsame imp (by simp [Position.tokens])
      obtain ⟨hrest, hdep⟩ := h
      refine ⟨by rw [hi.dependencies, hi.registered]; exact hrest, fun d heq => ?_⟩
      obtain ⟨hd, hfound⟩ := hdep d heq
      exact ⟨Nat.lt_of_lt_of_le hd hused, (hname d hd).trans hfound⟩
  | created imp name rest dep =>
      have hi := hsame imp (by simp [Position.tokens])
      have hd := hsame dep (by simp [Position.tokens])
      obtain ⟨hrest, hne, hdep, hnone⟩ := h
      exact ⟨by rw [hi.dependencies, hi.registered]; exact hrest, hne, hd.name.trans hdep,
        hd.registered.trans hnone⟩

omit [DecidableEq Thread] in
theorem TaskProgress.congr {task : Task} (h : TaskProgress files s task)
    (hsame : ∀ i, task.imp = some i → SameImport s s' i) : TaskProgress files s' task := by
  intro i himp
  have hi := hsame i himp
  rw [hi.registered, hi.dependencies]
  exact h i himp

/-! ## Links, fixups and counters -/

/-- How often a file with the path `name` is in the shared scopes of `i`. -/
def links (s : State Thread) (i : ℕ) (name : String) : ℕ :=
  (s.imports i).sharedScopes.countP fun dep => (s.imports dep).name = name

/-- How often `i` is in the fixups of a file with the path `name`. -/
def waits (s : State Thread) (i : ℕ) (name : String) : ℕ :=
  ∑ dep ∈ range s.importsUsed,
    if (s.imports dep).name = name then (s.imports dep).fixups.count i else 0

/-- Every registration is a link or a fixup, and the counters are those of the fixups. -/
structure Balance (s : State Thread) : Prop where
  named : ∀ name i, s.importMap name = some i → i < s.importsUsed ∧ (s.imports i).name = name
  unused : ∀ i, s.importsUsed ≤ i → s.imports i = {}
  balanced : ∀ i name, links s i name + waits s i name = (s.imports i).registered.count name
  counted : ∀ i, (s.imports i).depsCount = (s.imports i).depsNow +
    ∑ dep ∈ range s.importsUsed, (s.imports dep).fixups.count i
  shared : ∀ i, ∀ dep ∈ (s.imports i).sharedScopes, (s.imports dep).returned = true

omit [DecidableEq Thread] in
/-- An import that has registered nothing waits for nothing. -/
theorem Balance.fixups_eq_zero (h : Balance s) {i : ℕ} (hnone : (s.imports i).registered = []) :
    ∑ dep ∈ range s.importsUsed, (s.imports dep).fixups.count i = 0 := by
  refine sum_eq_zero fun dep hdep => ?_
  have hbalanced := h.balanced i (s.imports dep).name
  rw [hnone, List.count_nil] at hbalanced
  have hle : (s.imports dep).fixups.count i ≤ waits s i (s.imports dep).name := by
    refine Nat.le_trans (Nat.le_of_eq ?_) (single_le_sum (fun _ _ => Nat.zero_le _) hdep)
    rw [if_pos rfl]
  omega

omit [DecidableEq Thread] in
/-- The links, the fixups and the counters as they were. -/
theorem Balance.congr (h : Balance s) (hused : s'.importsUsed = s.importsUsed)
    (hmap : s'.importMap = s.importMap)
    (hsame : ∀ i, (s'.imports i).name = (s.imports i).name ∧
      (s'.imports i).fixups = (s.imports i).fixups ∧
      (s'.imports i).sharedScopes = (s.imports i).sharedScopes ∧
      (s'.imports i).registered = (s.imports i).registered)
    (hcounts : ∀ i, (s'.imports i).depsCount = (s'.imports i).depsNow +
      ∑ dep ∈ range s.importsUsed, (s.imports dep).fixups.count i)
    (hreturned : ∀ i, (s.imports i).returned = true → (s'.imports i).returned = true)
    (hunused : ∀ i, s.importsUsed ≤ i → s'.imports i = {}) : Balance s' := by
  refine ⟨fun name i => ?_, fun i hle => hunused i (hused ▸ hle), fun i name => ?_, fun i => ?_,
    fun i dep hdep => ?_⟩
  · rw [hmap, hused, (hsame i).1]
    exact h.named name i
  · rw [(hsame i).2.2.2, ← h.balanced i name]
    simp only [links, waits, hused, (hsame _).1, (hsame _).2.1, (hsame _).2.2.1]
  · rw [hcounts i, hused]
    simp only [(hsame _).2.1]
  · rw [(hsame i).2.2.1] at hdep
    exact hreturned dep (h.shared i dep hdep)

/-! ### The steps that change them -/

/-- The end of parsing: fixups become links. -/
theorem Balance.resolve (h : Balance s) (hlt : imp < s.importsUsed)
    (hreturned : (s.imports imp).returned = true) : Balance (s.resolveFixups imp) := by
  have himports : ∀ i, (s.resolveFixups imp).imports i = _ := State.resolveFixups_imports
  have hrest : State.SameRest s (s.resolveFixups imp) := State.sameRest_resolveFixups
  have hname : ∀ i, ((s.resolveFixups imp).imports i).name = (s.imports i).name := fun i => by
    rw [himports]
  have hsum : ∀ f : ℕ → ℕ → ℕ, (∀ i, f i 0 = 0) → ∀ i,
      (∑ dep ∈ range s.importsUsed,
        f dep (((s.resolveFixups imp).imports dep).fixups.count i)) +
          f imp ((s.imports imp).fixups.count i) =
        ∑ dep ∈ range s.importsUsed, f dep ((s.imports dep).fixups.count i) := by
    intro f hzero i
    have hsplit : ∀ g : ℕ → ℕ, ∑ dep ∈ range s.importsUsed, g dep =
        (∑ dep ∈ (range s.importsUsed).erase imp, g dep) + g imp :=
      fun g => (sum_erase_add _ _ (mem_range.mpr hlt)).symm
    rw [hsplit, hsplit fun dep => f dep ((s.imports dep).fixups.count i)]
    have hself : f imp (((s.resolveFixups imp).imports imp).fixups.count i) = 0 := by
      rw [himports, if_pos rfl, List.count_nil, hzero]
    have hothers : ∑ dep ∈ (range s.importsUsed).erase imp,
        f dep (((s.resolveFixups imp).imports dep).fixups.count i) =
          ∑ dep ∈ (range s.importsUsed).erase imp, f dep ((s.imports dep).fixups.count i) := by
      refine sum_congr rfl fun dep hdep => ?_
      rw [himports, if_neg (ne_of_mem_erase hdep)]
    rw [hself, hothers, Nat.add_zero]
  refine ⟨fun name i => ?_, fun i hle => ?_, fun i name => ?_, fun i => ?_, fun i dep hdep => ?_⟩
  · rw [hrest.importMap, hrest.importsUsed, hname]
    exact h.named name i
  · rw [hrest.importsUsed] at hle
    have hnot : (s.imports imp).fixups.count i = 0 := by
      have hcounted := h.counted i
      rw [h.unused i hle] at hcounted
      have hcounted : 0 = 0 + ∑ dep ∈ range s.importsUsed, (s.imports dep).fixups.count i := hcounted
      have hle := single_le_sum (f := fun dep => (s.imports dep).fixups.count i)
        (fun _ _ => Nat.zero_le _) (mem_range.mpr hlt)
      change (s.imports imp).fixups.count i ≤ _ at hle
      omega
    rw [himports, hnot, if_neg (by omega), h.unused i hle]
    rfl
  · have hbalanced := h.balanced i name
    have hlinks : links (s.resolveFixups imp) i name = links s i name +
        if (s.imports imp).name = name then (s.imports imp).fixups.count i else 0 := by
      simp only [links, hname]
      rw [himports, List.countP_append, List.countP_replicate]
      by_cases heq : (s.imports imp).name = name <;> simp [heq]
    have hwaits := hsum (fun dep n => if (s.imports dep).name = name then n else 0)
      (fun i => by simp) i
    have hwaits' : waits (s.resolveFixups imp) i name = ∑ dep ∈ range s.importsUsed,
        if (s.imports dep).name = name then
          ((s.resolveFixups imp).imports dep).fixups.count i else 0 := by
      simp only [waits, hrest.importsUsed, hname]
    have hregistered : ((s.resolveFixups imp).imports i).registered = (s.imports i).registered := by
      rw [himports]
    rw [hlinks, hwaits', hregistered, ← hbalanced]
    unfold waits
    omega
  · have hcounted := h.counted i
    have hfixups := hsum (fun _ n => n) (fun _ => rfl) i
    have hfields : ((s.resolveFixups imp).imports i).depsCount = (s.imports i).depsCount ∧
        ((s.resolveFixups imp).imports i).depsNow =
          (s.imports i).depsNow + (s.imports imp).fixups.count i := by
      rw [himports]
      exact ⟨rfl, rfl⟩
    rw [hrest.importsUsed, hfields.1, hfields.2]
    omega
  · rw [himports] at hdep
    have hnow : ((s.resolveFixups imp).imports dep).returned = (s.imports dep).returned := by
      rw [himports]
    rw [hnow]
    rcases List.mem_append.mp hdep with hold | hnew
    · exact h.shared i dep hold
    · rw [(List.mem_replicate.mp hnew).2]
      exact hreturned

/-- A new import is linked to nothing. -/
theorem Balance.create (h : Balance s) (name : String) : Balance (s.createImport name).2 := by
  have hself : (s.createImport name).2.imports s.importsUsed = { name := name } := by
    rw [State.createImport_imports, if_pos rfl]
  have hold : ∀ i, i ≠ s.importsUsed → (s.createImport name).2.imports i = s.imports i :=
    fun i hi => by rw [State.createImport_imports, if_neg hi]
  have hunused := h.unused s.importsUsed (Nat.le_refl _)
  have hfields : ∀ i, ((s.createImport name).2.imports i).fixups = (s.imports i).fixups ∧
      ((s.createImport name).2.imports i).sharedScopes = (s.imports i).sharedScopes ∧
      ((s.createImport name).2.imports i).registered = (s.imports i).registered ∧
      ((s.createImport name).2.imports i).depsCount = (s.imports i).depsCount ∧
      ((s.createImport name).2.imports i).depsNow = (s.imports i).depsNow ∧
      ((s.createImport name).2.imports i).returned = (s.imports i).returned := by
    intro i
    by_cases hi : i = s.importsUsed
    · rw [hi, hself, hunused]
      exact ⟨rfl, rfl, rfl, rfl, rfl, rfl⟩
    · rw [hold i hi]
      exact ⟨rfl, rfl, rfl, rfl, rfl, rfl⟩
  have hshared : ∀ i, ∀ dep ∈ (s.imports i).sharedScopes, dep ≠ s.importsUsed := by
    intro i dep hdep heq
    have hreturned := h.shared i dep hdep
    rw [heq, hunused] at hreturned
    cases hreturned
  refine ⟨fun other i hmap => ?_, fun i hle => ?_, fun i other => ?_, fun i => ?_,
    fun i dep hdep => ?_⟩
  · by_cases heq : other = name
    · subst heq
      have hnow : (s.createImport other).2.importMap other = some s.importsUsed :=
        Function.update_self ..
      obtain rfl := Option.some.inj (hnow.symm.trans hmap)
      exact ⟨Nat.lt_succ_self _, by rw [hself]⟩
    · have hmap : s.importMap other = some i := by
        rw [← hmap]
        exact (Function.update_of_ne heq ..).symm
      obtain ⟨hi, hname⟩ := h.named other i hmap
      exact ⟨Nat.lt_succ_of_lt hi, by rw [hold i (Nat.ne_of_lt hi), hname]⟩
  · have hle : s.importsUsed + 1 ≤ i := hle
    rw [hold i (by omega)]
    exact h.unused i (by omega)
  · rw [(hfields i).2.2.1, ← h.balanced i other]
    have hlinks : links (s.createImport name).2 i other = links s i other := by
      unfold links
      rw [(hfields i).2.1]
      refine List.countP_congr fun dep hdep => ?_
      rw [hold dep (hshared i dep hdep)]
    have hwaits : waits (s.createImport name).2 i other = waits s i other := by
      unfold waits
      change ∑ dep ∈ range (s.importsUsed + 1), _ = _
      rw [sum_range_succ, (hfields s.importsUsed).1, hunused, List.count_nil, ite_self, Nat.add_zero]
      refine sum_congr rfl fun dep hdep => ?_
      rw [hold dep (Nat.ne_of_lt (mem_range.mp hdep))]
    rw [hlinks, hwaits]
  · rw [(hfields i).2.2.2.1, (hfields i).2.2.2.2.1, h.counted i]
    change _ = _ + ∑ dep ∈ range (s.importsUsed + 1), _
    simp only [(hfields _).1, sum_range_succ]
    rw [hunused, List.count_nil, Nat.add_zero]
  · rw [(hfields i).2.1] at hdep
    rw [(hfields dep).2.2.2.2.2]
    exact h.shared i dep hdep

/-- A registration that is a fixup. -/
theorem Balance.wait (h : Balance s) (himp : imp < s.importsUsed) (hdep : dep < s.importsUsed)
    (hname : (s.imports dep).name = name) : Balance ((s.waitFor imp dep).register imp name) := by
  have himports : ∀ i, ((s.waitFor imp dep).register imp name).imports i =
      { s.imports i with
        fixups := if i = dep then (s.imports i).fixups ++ [imp] else (s.imports i).fixups
        depsCount := if i = imp then (s.imports i).depsCount + 1 else (s.imports i).depsCount
        registered := if i = imp then (s.imports i).registered ++ [name]
          else (s.imports i).registered } := by
    intro i
    rw [State.register_imports, State.waitFor_imports]
  have hcount : ∀ i d, (((s.waitFor imp dep).register imp name).imports d).fixups.count i =
      (s.imports d).fixups.count i + if d = dep then (if i = imp then 1 else 0) else 0 := by
    intro i d
    rw [himports]
    by_cases hd : d = dep
    · by_cases hi : i = imp
      · simp [hd, hi]
      · simp [hd, hi, Ne.symm hi]
    · simp [hd]
  refine ⟨fun other i hmap => ?_, fun i hle => ?_, fun i other => ?_, fun i => ?_,
    fun i d hd => ?_⟩
  · rw [himports]
    exact h.named other i hmap
  · have hle : s.importsUsed ≤ i := hle
    rw [himports, if_neg (by omega), if_neg (by omega), if_neg (by omega)]
    exact h.unused i hle
  · have hlinks : links ((s.waitFor imp dep).register imp name) i other = links s i other := by
      simp only [links, himports]
    have hwaits : waits ((s.waitFor imp dep).register imp name) i other =
        waits s i other + if i = imp ∧ other = name then 1 else 0 := by
      unfold waits
      have hterm : ∀ d, (if (((s.waitFor imp dep).register imp name).imports d).name = other then
          (((s.waitFor imp dep).register imp name).imports d).fixups.count i else 0) =
            (if (s.imports d).name = other then (s.imports d).fixups.count i else 0) +
              if d = dep then (if i = imp ∧ other = name then 1 else 0) else 0 := by
        intro d
        rw [hcount]
        have hsame : (((s.waitFor imp dep).register imp name).imports d).name =
            (s.imports d).name := by rw [himports]
        rw [hsame]
        by_cases hd : d = dep
        · subst hd
          by_cases hother : name = other
          · simp [hname, hother]
          · simp [hname, hother, Ne.symm hother]
        · simp [hd]
      change ∑ d ∈ range s.importsUsed, _ = _
      simp only [hterm, sum_add_distrib, sum_ite_eq', mem_range, hdep, if_true]
    have hregistered : (((s.waitFor imp dep).register imp name).imports i).registered.count other =
        (s.imports i).registered.count other + if i = imp ∧ other = name then 1 else 0 := by
      rw [himports]
      by_cases hi : i = imp
      · by_cases hother : other = name
        · simp [hi, hother]
        · simp [hi, hother, Ne.symm hother]
      · simp [hi]
    rw [hlinks, hwaits, hregistered, ← h.balanced i other, Nat.add_assoc]
  · have hcounted := h.counted i
    have hsum : ∑ d ∈ range s.importsUsed,
        (((s.waitFor imp dep).register imp name).imports d).fixups.count i =
          (∑ d ∈ range s.importsUsed, (s.imports d).fixups.count i) + if i = imp then 1 else 0 := by
      simp only [hcount, sum_add_distrib, sum_ite_eq', mem_range, hdep, if_true]
    change (((s.waitFor imp dep).register imp name).imports i).depsCount = _ +
      ∑ d ∈ range s.importsUsed, _
    rw [hsum, himports]
    by_cases hi : i = imp
    · simp only [hi, if_true] at hcounted ⊢
      omega
    · simp only [hi, if_false] at hcounted ⊢
      omega
  · rw [himports] at hd ⊢
    exact h.shared i d hd

/-- A registration that is a link, to an import that is parsed. -/
theorem Balance.link (h : Balance s) (himp : imp < s.importsUsed)
    (hname : (s.imports dep).name = name) (hstarted : (s.imports dep).started = true)
    (hreturned : (s.imports dep).returned = true) :
    Balance ((s.linkImport imp dep).register imp name) := by
  have himports : ∀ i, ((s.linkImport imp dep).register imp name).imports i =
      { s.imports i with
        sharedScopes := if i = imp then (s.imports i).sharedScopes ++ [dep]
          else (s.imports i).sharedScopes
        registered := if i = imp then (s.imports i).registered ++ [name]
          else (s.imports i).registered } := by
    intro i
    rw [State.register_imports, State.linkImport_imports, if_pos hstarted]
  have hrest : State.SameRest s (s.linkImport imp dep) := State.sameRest_linkImport
  have hused : ((s.linkImport imp dep).register imp name).importsUsed = s.importsUsed :=
    hrest.importsUsed
  refine ⟨fun other i hmap => ?_, fun i hle => ?_, fun i other => ?_, fun i => ?_,
    fun i d hd => ?_⟩
  · have hmap : s.importMap other = some i := by
      rw [← hrest.importMap]
      exact hmap
    rw [hused, himports]
    exact h.named other i hmap
  · rw [hused] at hle
    rw [himports, if_neg (by omega), if_neg (by omega)]
    exact h.unused i hle
  · have hwaits : waits ((s.linkImport imp dep).register imp name) i other = waits s i other := by
      simp only [waits, himports, hused]
    have hlinks : links ((s.linkImport imp dep).register imp name) i other =
        links s i other + if i = imp ∧ other = name then 1 else 0 := by
      have hsame : ∀ d, (((s.linkImport imp dep).register imp name).imports d).name =
          (s.imports d).name := fun d => by rw [himports]
      simp only [links, hsame]
      rw [himports]
      by_cases hi : i = imp
      · by_cases hother : other = name
        · simp [hi, hother, hname, List.countP_append]
        · simp [hi, hother, hname, List.countP_append, Ne.symm hother]
      · simp [hi]
    have hregistered : (((s.linkImport imp dep).register imp name).imports i).registered.count other =
        (s.imports i).registered.count other + if i = imp ∧ other = name then 1 else 0 := by
      rw [himports]
      by_cases hi : i = imp
      · by_cases hother : other = name
        · simp [hi, hother]
        · simp [hi, hother, Ne.symm hother]
      · simp [hi]
    rw [hlinks, hwaits, hregistered, ← h.balanced i other]
    omega
  · simp only [hused, himports]
    exact h.counted i
  · have hsame : (((s.linkImport imp dep).register imp name).imports d).returned =
        (s.imports d).returned := by rw [himports]
    rw [hsame]
    rw [himports] at hd
    by_cases hi : i = imp
    · simp only [hi, if_true] at hd
      rcases List.mem_append.mp hd with hold | hnew
      · exact h.shared imp d hold
      · rw [List.mem_singleton.mp hnew]
        exact hreturned
    · simp only [hi, if_false] at hd
      exact h.shared i d hd

omit [DecidableEq Thread] in
/-- A step that leaves the imports. -/
theorem Balance.same (h : Balance s) (himports : s'.imports = s.imports)
    (hused : s'.importsUsed = s.importsUsed) (hmap : s'.importMap = s.importMap) : Balance s' := by
  refine h.congr hused hmap (fun i => ?_) (fun i => ?_) (fun i => ?_) (fun i => ?_)
  · rw [himports]
    exact ⟨rfl, rfl, rfl, rfl⟩
  · rw [himports]
    exact h.counted i
  · rw [himports]
    exact id
  · rw [himports]
    exact h.unused i

/-- A change of one import that keeps its links and fixups. -/
theorem Balance.modify (h : Balance s) (hlt : imp < s.importsUsed) (f : Import → Import)
    (hsame : ∀ x, (f x).name = x.name ∧ (f x).fixups = x.fixups ∧
      (f x).sharedScopes = x.sharedScopes ∧ (f x).registered = x.registered)
    (hreturned : ∀ x, x.returned = true → (f x).returned = true)
    (hcounts : (f (s.imports imp)).depsCount = (f (s.imports imp)).depsNow +
      ∑ dep ∈ range s.importsUsed, (s.imports dep).fixups.count imp) :
    Balance (s.modifyImport imp f) := by
  refine h.congr rfl rfl (fun i => ?_) (fun i => ?_) (fun i => ?_) (fun i hle => ?_)
  · rw [State.modifyImport_imports]
    split
    · exact hsame _
    · exact ⟨rfl, rfl, rfl, rfl⟩
  · rw [State.modifyImport_imports]
    by_cases hi : i = imp
    · rw [if_pos hi, hi]
      exact hcounts
    · rw [if_neg hi]
      exact h.counted i
  · rw [State.modifyImport_imports]
    split
    · exact hreturned _
    · exact id
  · rw [State.modifyImport_imports, if_neg (by omega)]
    exact h.unused i hle

/-! ## The invariant -/

/-- What holds in the runs in which no dependency is half parsed when it is registered. -/
structure Waiting (files : String → SourceFile) (s : State Thread) : Prop where
  apart : Apart s
  balance : Balance s
  threads : ∀ thread, Progress files s (s.position thread)
  tasks : ∀ task ∈ s.tasks, TaskProgress files s task

namespace Waiting

omit [DecidableEq Thread] in
theorem start : Waiting files (start Thread initialFile) := by
  have hzero : (Registration.start Thread initialFile).imports 0 =
      { name := "preload", started := true, returned := true } := by
    simp [Registration.start]
  have hother : ∀ i, i ≠ 0 → (Registration.start Thread initialFile).imports i = {} :=
    fun i hi => by simp [Registration.start, hi]
  have hfields : ∀ i, ((Registration.start Thread initialFile).imports i).fixups = [] ∧
      ((Registration.start Thread initialFile).imports i).sharedScopes = [] ∧
      ((Registration.start Thread initialFile).imports i).registered = [] ∧
      ((Registration.start Thread initialFile).imports i).depsCount = 0 ∧
      ((Registration.start Thread initialFile).imports i).depsNow = 0 := by
    intro i
    by_cases hi : i = 0
    · rw [hi, hzero]
      exact ⟨rfl, rfl, rfl, rfl, rfl⟩
    · rw [hother i hi]
      exact ⟨rfl, rfl, rfl, rfl, rfl⟩
  refine ⟨⟨?_, ?_, ?_, ?_, ?_⟩, ⟨?_, ?_, ?_, ?_, ?_⟩, fun _ => trivial, ?_⟩
  · simp [Registration.start]
  · intro thread token htoken
    cases htoken
  · intro thread other _ token htoken
    cases htoken
  · intro thread i htoken
    cases htoken
  · intro task ht i himp
    simp only [Registration.start, List.mem_cons, List.not_mem_nil, or_false] at ht
    rcases ht with rfl | rfl
    · obtain rfl := Option.some.inj himp
      exact Nat.one_pos
    · cases himp
  · intro name i hmap
    by_cases hname : name = "preload"
    · subst hname
      have hnow : (Registration.start Thread initialFile).importMap "preload" = some 0 := by
        simp [Registration.start]
      obtain rfl := Option.some.inj (hnow.symm.trans hmap)
      exact ⟨Nat.one_pos, by rw [hzero]⟩
    · have hnow : (Registration.start Thread initialFile).importMap name = none := by
        simp [Registration.start, hname]
      rw [hnow] at hmap
      cases hmap
  · intro i hle
    exact hother i (Nat.ne_of_gt hle)
  · intro i name
    simp only [links, waits, hfields, List.countP_nil, List.count_nil, ite_self, sum_const_zero,
      Nat.add_zero]
  · intro i
    simp only [hfields, List.count_nil, sum_const_zero, Nat.add_zero]
  · intro i dep hdep
    rw [(hfields i).2.1] at hdep
    cases hdep
  · intro task ht i himp
    simp only [Registration.start, List.mem_cons, List.not_mem_nil, or_false] at ht
    rcases ht with rfl | rfl
    · rw [if_neg (by decide)]
      intro hne
      exact absurd (Option.some.inj himp).symm hne
    · cases himp

/-- A step of one thread: the others keep their imports. -/
theorem step_of (h : Waiting files s) (hapart : Apart s') (hbalance : Balance s')
    (position : Position) (hposition : s'.position = Function.update s.position thread position)
    (hused : s.importsUsed ≤ s'.importsUsed)
    (hname : ∀ i < s.importsUsed, (s'.imports i).name = (s.imports i).name)
    (hregistered : ∀ i < s.importsUsed, some i ∉ (s.position thread).tokens →
      (s'.imports i).registered = (s.imports i).registered)
    (hreturned : ∀ i, (s.imports i).returned = true → (s'.imports i).returned = true)
    (hprogress : Progress files s' position)
    (htasks : ∀ task ∈ s'.tasks, task ∈ s.tasks ∨ TaskProgress files s' task) :
    Waiting files s' := by
  refine ⟨hapart, hbalance, fun t => ?_, fun task ht => ?_⟩
  · by_cases ht : t = thread
    · rw [ht, hposition, Function.update_self]
      exact hprogress
    · rw [hposition, Function.update_of_ne ht]
      refine (h.threads t).congr hused hname fun i hi => ?_
      have hlt := h.apart.used t i hi
      exact ⟨hname i hlt, hregistered i hlt (h.apart.disjoint t thread ht _ hi), hreturned i⟩
  · rcases htasks task ht with hold | hnew
    · refine (h.tasks task hold).congr fun i himp => ?_
      have hlt := h.apart.queued task hold i himp
      refine ⟨hname i hlt, hregistered i hlt fun hi => ?_, hreturned i⟩
      exact h.apart.threads thread _ hi (himp ▸ List.mem_map_of_mem hold)
    · exact hnew

/-- A step that only moves the thread on. -/
theorem step_move (h : Waiting files s) (position : Position)
    (htokens : ∀ token ∈ position.tokens, token ∈ (s.position thread).tokens)
    (hprogress : Progress files s position) : Waiting files (s.move thread position) :=
  h.step_of (h.apart.move position rfl rfl (Nat.le_refl _) fun token ht => Or.inl (htokens token ht))
    (h.balance.same rfl rfl rfl) position rfl (Nat.le_refl _) (fun _ _ => rfl) (fun _ _ _ => rfl)
    (fun _ => id)
    (hprogress.congr (Nat.le_refl _) (fun _ _ => rfl) fun _ _ => ⟨rfl, rfl, id⟩)
    fun _ => Or.inl

/-- A step that changes the import of the thread and none of its links. -/
theorem step_modify (h : Waiting files s) (himp : some imp ∈ (s.position thread).tokens)
    (f : Import → Import)
    (hsame : ∀ x, (f x).name = x.name ∧ (f x).fixups = x.fixups ∧
      (f x).sharedScopes = x.sharedScopes ∧ (f x).registered = x.registered)
    (hreturned : ∀ x, x.returned = true → (f x).returned = true)
    (hcounts : (f (s.imports imp)).depsCount = (f (s.imports imp)).depsNow +
      ∑ dep ∈ range s.importsUsed, (s.imports dep).fixups.count imp)
    (position : Position)
    (htokens : ∀ token ∈ position.tokens, token ∈ (s.position thread).tokens)
    (hprogress : Progress files (s.modifyImport imp f) position) :
    Waiting files ((s.modifyImport imp f).move thread position) := by
  have hfields : ∀ i, SameImport s (s.modifyImport imp f) i := by
    intro i
    have hcase : (s.modifyImport imp f).imports i = _ := State.modifyImport_imports f i
    by_cases hi : i = imp
    · rw [if_pos hi] at hcase
      exact ⟨by rw [hcase, (hsame _).1], by rw [hcase, (hsame _).2.2.2],
        fun hr => by rw [hcase]; exact hreturned _ hr⟩
    · rw [if_neg hi] at hcase
      exact ⟨by rw [hcase], by rw [hcase], fun hr => by rw [hcase]; exact hr⟩
  refine h.step_of ?_ ?_ position rfl (Nat.le_refl _) (fun i _ => (hfields i).name)
    (fun i _ _ => (hfields i).registered) (fun i => (hfields i).returned) ?_ fun _ => Or.inl
  · exact h.apart.move position rfl rfl (Nat.le_refl _) fun token ht => Or.inl (htokens token ht)
  · exact (h.balance.modify (h.apart.used thread imp himp) f hsame hreturned hcounts).same rfl rfl rfl
  · exact hprogress.congr (Nat.le_refl _) (fun _ _ => rfl) fun _ _ => ⟨rfl, rfl, id⟩

/-- A step that creates an import. -/
theorem step_create (h : Waiting files s) (name : String) (position : Position)
    (htokens : ∀ token ∈ position.tokens, token ∈ (s.position thread).tokens ∨
      token = some s.importsUsed)
    (hprogress : Progress files (s.createImport name).2 position) :
    Waiting files ((s.createImport name).2.move thread position) := by
  have hold : ∀ i, i ≠ s.importsUsed → (s.createImport name).2.imports i = s.imports i :=
    fun i hi => by rw [State.createImport_imports, if_neg hi]
  refine h.step_of ?_ ((h.balance.create name).same rfl rfl rfl) position rfl (Nat.le_succ _)
    (fun i hi => ?_) (fun i hi _ => ?_) (fun i hreturned => ?_) ?_ fun _ => Or.inl
  · refine h.apart.move position rfl rfl (Nat.le_succ _) fun token ht => ?_
    rcases htokens token ht with hmem | rfl
    · exact Or.inl hmem
    · exact Or.inr ⟨s.importsUsed, rfl, Nat.le_refl _, Nat.lt_succ_self _⟩
  · exact congrArg Import.name (hold i (Nat.ne_of_lt hi))
  · exact congrArg Import.registered (hold i (Nat.ne_of_lt hi))
  · have hne : i ≠ s.importsUsed := by
      rintro rfl
      rw [h.balance.unused _ (Nat.le_refl _)] at hreturned
      cases hreturned
    change ((s.createImport name).2.imports i).returned = true
    rw [hold i hne]
    exact hreturned
  · exact hprogress.congr (Nat.le_refl _) (fun _ _ => rfl) fun _ _ => ⟨rfl, rfl, id⟩

/-- The end of parsing. -/
theorem step_resolve (h : Waiting files s) (hposition : s.position thread = .parsed imp) :
    Waiting files ((s.resolveFixups imp).move thread (.resolved imp)) := by
  have hprogress : Progress files s (.parsed imp) := hposition ▸ h.threads thread
  have himp : some imp ∈ (s.position thread).tokens := by simp [hposition, Position.tokens]
  have hlt := h.apart.used thread imp himp
  have himports : ∀ i, (s.resolveFixups imp).imports i = _ := State.resolveFixups_imports
  have hrest : State.SameRest s (s.resolveFixups imp) := State.sameRest_resolveFixups
  have hfields : ∀ i, SameImport s (s.resolveFixups imp) i := fun i =>
    ⟨by rw [himports], by rw [himports], fun hr => by rw [himports]; exact hr⟩
  have hmoved : ((s.resolveFixups imp).move thread (.resolved imp)).position =
      Function.update s.position thread (.resolved imp) := by
    rw [← hrest.position]
    rfl
  refine h.step_of ?_ ((h.balance.resolve hlt hprogress.2).same rfl rfl rfl) (.resolved imp) hmoved
    (Nat.le_of_eq hrest.importsUsed.symm) (fun i _ => (hfields i).name)
    (fun i _ _ => (hfields i).registered) (fun i => (hfields i).returned) ?_ fun task ht => ?_
  · refine h.apart.move _ hmoved hrest.tasks (Nat.le_of_eq hrest.importsUsed.symm) fun token ht => ?_
    rw [hposition]
    exact Or.inl ht
  · exact ⟨(hfields imp).registered.trans hprogress.1, (hfields imp).returned hprogress.2⟩
  · rw [← hrest.tasks]
    exact Or.inl ht

/-- A dependency that has an import already is registered. -/
theorem step_link (h : Waiting files s) {rest : List String}
    (hposition : s.position thread = .found imp name rest (some dep))
    (hwhole : (s.imports dep).started = true → (s.imports dep).returned = true) :
    Waiting files (((s.linkImport imp dep).register imp name).move thread (.registering imp rest)) := by
  obtain ⟨hleft, hfound⟩ : Progress files s (.found imp name rest (some dep)) :=
    hposition ▸ h.threads thread
  obtain ⟨hdep, hname⟩ := hfound dep rfl
  have himp : imp < s.importsUsed := h.apart.used thread imp (by simp [hposition, Position.tokens])
  have hrest : State.SameRest s (s.linkImport imp dep) := State.sameRest_linkImport
  have hbalance : Balance ((s.linkImport imp dep).register imp name) := by
    by_cases hstarted : (s.imports dep).started = true
    · exact h.balance.link himp hname hstarted (hwhole hstarted)
    · have hwait : s.linkImport imp dep = s.waitFor imp dep := by
        rw [State.linkImport, if_neg hstarted]
      rw [hwait]
      exact h.balance.wait himp hdep hname
  have hfields : ∀ i, (((s.linkImport imp dep).register imp name).imports i).name =
        (s.imports i).name ∧
      (((s.linkImport imp dep).register imp name).imports i).returned = (s.imports i).returned ∧
      (((s.linkImport imp dep).register imp name).imports i).registered =
        if i = imp then (s.imports i).registered ++ [name] else (s.imports i).registered := by
    intro i
    rw [State.register_imports, State.linkImport_imports, State.waitFor_imports]
    split <;> exact ⟨rfl, rfl, rfl⟩
  have hmoved : (((s.linkImport imp dep).register imp name).move thread
      (.registering imp rest)).position =
        Function.update s.position thread (.registering imp rest) := by
    rw [← hrest.position]
    rfl
  refine h.step_of ?_ (hbalance.same rfl rfl rfl) (.registering imp rest) hmoved
    (Nat.le_of_eq hrest.importsUsed.symm) (fun i _ => (hfields i).1) (fun i _ hi => ?_)
    (fun i hr => (hfields i).2.1.trans hr) ?_ fun task ht => ?_
  · refine h.apart.move _ hmoved hrest.tasks (Nat.le_of_eq hrest.importsUsed.symm) fun token ht => ?_
    rw [hposition]
    exact Or.inl ht
  · have hne : i ≠ imp := by
      rintro rfl
      exact hi (by simp [hposition, Position.tokens])
    exact ((hfields i).2.2).trans (if_neg hne)
  · change (files (((s.linkImport imp dep).register imp name).imports imp).name).imports.foldl _ [] =
      (((s.linkImport imp dep).register imp name).imports imp).registered ++ rest
    rw [(hfields imp).1, (hfields imp).2.2, if_pos rfl, List.append_assoc]
    exact hleft
  · rw [← hrest.tasks]
    exact Or.inl ht

/-- A dependency whose import is new is registered, and queued to be parsed. -/
theorem step_wait (h : Waiting files s) {rest : List String}
    (hposition : s.position thread = .created imp name rest dep) :
    Waiting files ((((s.waitFor imp dep).register imp name).pushLexFile name dep).move thread
      (.registering imp rest)) := by
  obtain ⟨hleft, hne, hname, hnone⟩ : Progress files s (.created imp name rest dep) :=
    hposition ▸ h.threads thread
  have himp : imp < s.importsUsed := h.apart.used thread imp (by simp [hposition, Position.tokens])
  have hdep : dep < s.importsUsed := h.apart.used thread dep (by simp [hposition, Position.tokens])
  have hfields : ∀ i, (((s.waitFor imp dep).register imp name).imports i).name =
        (s.imports i).name ∧
      (((s.waitFor imp dep).register imp name).imports i).returned = (s.imports i).returned ∧
      (((s.waitFor imp dep).register imp name).imports i).registered =
        if i = imp then (s.imports i).registered ++ [name] else (s.imports i).registered := by
    intro i
    rw [State.register_imports, State.waitFor_imports]
    exact ⟨rfl, rfl, rfl⟩
  refine h.step_of ?_ ((h.balance.wait himp hdep hname).same rfl rfl rfl) (.registering imp rest) rfl
    (Nat.le_refl _) (fun i _ => (hfields i).1) (fun i _ hi => ?_)
    (fun i hr => (hfields i).2.1.trans hr) ?_ fun task ht => ?_
  · refine h.apart.push _ rfl (some { type := .lexFile, name := name, imp := some dep }) rfl rfl
      (fun token ht => ?_) fun task ht => ?_
    · rw [hposition]
      exact List.mem_cons.mpr (Or.inl (List.mem_singleton.mp ht))
    · obtain rfl := Option.some.inj ht
      rw [hposition]
      exact ⟨by simp [Position.tokens], by simpa [Position.tokens] using Ne.symm hne⟩
  · have hother : i ≠ imp := by
      rintro rfl
      exact hi (by simp [hposition, Position.tokens])
    exact ((hfields i).2.2).trans (if_neg hother)
  · change (files (((s.waitFor imp dep).register imp name).imports imp).name).imports.foldl _ [] =
      (((s.waitFor imp dep).register imp name).imports imp).registered ++ rest
    rw [(hfields imp).1, (hfields imp).2.2, if_pos rfl, List.append_assoc]
    exact hleft
  · rcases List.mem_append.mp ht with hold | hnew
    · exact Or.inl hold
    · obtain rfl := List.mem_singleton.mp hnew
      refine Or.inr fun i hi => ?_
      obtain rfl := Option.some.inj hi
      rw [if_pos rfl]
      exact ((hfields dep).2.2).trans ((if_neg (Ne.symm hne)).trans hnone)

theorem step (h : Waiting files s) (hwhole : Whole s s') (hmove : State.Move files thread s s') :
    Waiting files s' := by
  cases hmove with
  | @take task rest hposition htaken =>
      have hperm := perm_of_takeFirst htaken
      have hmem : task ∈ s.tasks := hperm.mem_iff.mpr (List.mem_cons_self ..)
      have hprogress := h.tasks task hmem
      refine h.step_of (h.apart.take hperm _ rfl ?_ rfl rfl) (h.balance.same rfl rfl rfl) _ rfl
        (Nat.le_refl _) (fun _ _ => rfl) (fun _ _ _ => rfl) (fun _ => id) ?_ fun other ht =>
          Or.inl (mem_of_mem_takeFirst htaken ht)
      · split <;> rfl
      · by_cases htype : task.type = .lexFile
        · rw [if_pos htype]
          intro i himp
          have hi := hprogress i himp
          rwa [if_pos htype] at hi
        · rw [if_neg htype]
          intro i himp
          have hi := hprogress i himp
          rwa [if_neg htype] at hi
  | @begin task imp hposition himp =>
      have hprogress : Progress files s (.lexing task) := hposition ▸ h.threads thread
      refine h.step_move (.starting imp) (fun token ht => ?_) (hprogress imp himp)
      rw [hposition, Position.tokens, himp]
      exact ht
  | @beginFirst task hposition himp =>
      refine h.step_create task.name (.starting s.importsUsed) (fun token ht => ?_) ?_
      · exact Or.inr (List.mem_singleton.mp ht)
      · change ((s.createImport task.name).2.imports s.importsUsed).registered = []
        rw [State.createImport_imports, if_pos rfl]
  | @publish imp hposition =>
      have hprogress : Progress files s (.starting imp) := hposition ▸ h.threads thread
      have himp : some imp ∈ (s.position thread).tokens := by simp [hposition, Position.tokens]
      refine h.step_modify himp (fun i => { i with started := true })
        (fun _ => ⟨rfl, rfl, rfl, rfl⟩) (fun _ => id) (h.balance.counted imp) (.parsing imp) (fun token ht => ?_) ?_
      · rw [hposition]
        exact ht
      · change ((s.modifyImport imp _).imports imp).registered = []
        rw [State.modifyImport_imports, if_pos rfl]
        exact hprogress
  | @«return» imp hposition =>
      have hprogress : Progress files s (.parsing imp) := hposition ▸ h.threads thread
      have himp : some imp ∈ (s.position thread).tokens := by simp [hposition, Position.tokens]
      refine h.step_modify himp (fun i => { i with returned := true })
        (fun _ => ⟨rfl, rfl, rfl, rfl⟩) (fun _ _ => rfl) (h.balance.counted imp) (.parsed imp) (fun token ht => ?_) ?_
      · rw [hposition]
        exact ht
      · change ((s.modifyImport imp _).imports imp).registered = [] ∧
          ((s.modifyImport imp _).imports imp).returned = true
        rw [State.modifyImport_imports, if_pos rfl]
        exact ⟨hprogress, rfl⟩
  | @resolve imp hposition => exact h.step_resolve hposition
  | @reset imp hposition =>
      have hprogress : Progress files s (.resolved imp) := hposition ▸ h.threads thread
      have himp : some imp ∈ (s.position thread).tokens := by simp [hposition, Position.tokens]
      refine h.step_modify himp (fun i => { i with depsNow := 0, depsCount := 0 })
        (fun _ => ⟨rfl, rfl, rfl, rfl⟩) (fun _ => id) ?_ (.registering imp (s.dependencies files imp)) (fun token ht => ?_) ?_
      · -- nothing is registered yet, so that no fixup is lost
        rw [h.balance.fixups_eq_zero hprogress.1]
      · rw [hposition]
        exact ht
      · change (files ((s.modifyImport imp _).imports imp).name).imports.foldl _ [] =
          ((s.modifyImport imp _).imports imp).registered ++ s.dependencies files imp
        rw [State.modifyImport_imports, if_pos rfl]
        change s.dependencies files imp = (s.imports imp).registered ++ s.dependencies files imp
        rw [hprogress.1, List.nil_append]
  | @queue imp hposition =>
      have hprogress : Progress files s (.registering imp []) := hposition ▸ h.threads thread
      refine h.step_of (h.apart.push .idle rfl
        (some { type := .checkStructs, name := (s.imports imp).name, imp := some imp }) rfl rfl
          (fun token ht => by cases ht) fun task ht => ?_) (h.balance.same rfl rfl rfl) .idle rfl
        (Nat.le_refl _) (fun _ _ => rfl) (fun _ _ _ => rfl) (fun _ => id) trivial fun task ht => ?_
      · obtain rfl := Option.some.inj ht
        rw [hposition]
        exact ⟨List.mem_singleton.mpr rfl, List.not_mem_nil⟩
      · rcases List.mem_append.mp ht with hold | hnew
        · exact Or.inl hold
        · obtain rfl := List.mem_singleton.mp hnew
          refine Or.inr fun i hi => ?_
          obtain rfl := Option.some.inj hi
          rw [if_neg TaskType.noConfusion]
          exact fun _ => (hprogress.trans (List.append_nil _)).symm
  | @find imp name rest hposition =>
      have hprogress : Progress files s (.registering imp (name :: rest)) :=
        hposition ▸ h.threads thread
      refine h.step_move (.found imp name rest (s.importMap name)) (fun token ht => ?_)
        ⟨hprogress, fun d hd => h.balance.named name d hd⟩
      rw [hposition]
      exact ht
  | @create imp name rest hposition =>
      have hprogress : Progress files s (.found imp name rest none) := hposition ▸ h.threads thread
      have himp : imp < s.importsUsed :=
        h.apart.used thread imp (by simp [hposition, Position.tokens])
      refine h.step_create name (.created imp name rest s.importsUsed) (fun token ht => ?_) ?_
      · rw [hposition]
        simpa [Position.tokens] using ht
      · have hself : (s.createImport name).2.imports imp = s.imports imp := by
          rw [State.createImport_imports, if_neg (Nat.ne_of_lt himp)]
        have hnew : (s.createImport name).2.imports s.importsUsed = { name := name } := by
          rw [State.createImport_imports, if_pos rfl]
        refine ⟨?_, Nat.ne_of_lt himp, by rw [hnew], by rw [hnew]⟩
        change (files ((s.createImport name).2.imports imp).name).imports.foldl _ [] =
          ((s.createImport name).2.imports imp).registered ++ name :: rest
        rw [hself]
        exact hprogress.1
  | @link imp dep name rest hposition =>
      refine h.step_link hposition ?_
      have hmoved : (((s.linkImport imp dep).register imp name).move thread
          (.registering imp rest)).position thread ≠ s.position thread := by
        rw [State.move_position_self, hposition]
        exact fun heq => by cases heq
      have hposition' := hwhole thread hmoved
      rw [hposition] at hposition'
      exact hposition'
  | wait hposition => exact h.step_wait hposition
  | @work task requeued hposition htype =>
      have hprogress : Progress files s (.working task) := hposition ▸ h.threads thread
      have hsame : ∀ new ∈ requeued.map fun type => { task with type := type },
          new.imp = task.imp ∧ new.type ≠ .lexFile := by
        intro new hnew
        obtain ⟨type, hsome, rfl⟩ := Option.map_eq_some_iff.mp hnew
        exact ⟨rfl, fun heq => htype (hsome.trans (congrArg some heq))⟩
      refine h.step_of (h.apart.push .idle rfl _ rfl rfl (fun token ht => by cases ht)
        fun new hnew => ?_) (h.balance.same rfl rfl rfl) .idle rfl (Nat.le_refl _)
        (fun _ _ => rfl) (fun _ _ _ => rfl) (fun _ => id) trivial fun new hnew => ?_
      · rw [hposition, (hsame new hnew).1]
        exact ⟨List.mem_singleton.mpr rfl, List.not_mem_nil⟩
      · rcases List.mem_append.mp hnew with hold | hadded
        · exact Or.inl hold
        · rw [Option.mem_toList] at hadded
          refine Or.inr fun i hi => ?_
          rw [if_neg (hsame new hadded).2]
          exact hprogress i ((hsame new hadded).1.symm.trans hi)

omit [DecidableEq Thread] in
/-- A file that is ready to be checked waits for nothing: every registration is a link. -/
theorem waitsForImports (h : Waiting files s) : WaitsForImports files s := by
  intro task rest imp htaken htype himp hne name hname
  obtain ⟨before, after, htasks, -, hready, -⟩ := takeFirst_eq_some htaken
  have hmem : task ∈ s.tasks := by rw [htasks]; simp
  have hregistered : (s.imports imp).registered = s.dependencies files imp := by
    have htask := h.tasks task hmem imp himp
    rw [htype, if_neg (by decide)] at htask
    exact htask hne
  have hcount : (s.imports imp).registered.count name = 1 := by
    rw [hregistered]
    exact List.count_eq_one_of_mem (nodup_dependencies _ _ List.nodup_nil) hname
  have hzero : waits s imp name = 0 := by
    have hequal : (s.imports imp).depsCount = (s.imports imp).depsNow := by
      simpa [State.ready, himp] using hready
    have hcounted := h.balance.counted imp
    refine sum_eq_zero fun dep hdep => ?_
    have hle := single_le_sum (f := fun dep => (s.imports dep).fixups.count imp)
      (fun _ _ => Nat.zero_le _) hdep
    change (s.imports dep).fixups.count imp ≤ _ at hle
    split
    · omega
    · rfl
  have hlinks : links s imp name = 1 := by
    have hbalanced := h.balance.balanced imp name
    omega
  rw [links, List.countP_eq_length_filter] at hlinks
  obtain ⟨dep, hdep⟩ := List.length_eq_one_iff.mp hlinks
  refine ⟨dep, hdep, h.balance.shared imp dep ?_⟩
  have hin : dep ∈ (s.imports imp).sharedScopes.filter
      fun dep => (s.imports dep).name = name := by rw [hdep]; simp
  exact (List.mem_filter.mp hin).1

end Waiting

/-- In every run in which no dependency is half parsed when it is registered. -/
theorem waits_of_whole (h : ((run Thread files initialFile).restrict Whole).Reachable s) :
    WaitsForImports files s := by
  suffices hwaiting : Waiting files s from hwaiting.waitsForImports
  refine Transition.Reachable.invariant ?_ ?_ h
  · rintro s rfl
    exact .start
  · rintro s s' hwaiting ⟨⟨thread, requeued, hnext⟩, hwhole⟩
    exact hwaiting.step hwhole (State.next_cases hnext)

/-! ## A dependency that is registered while it is parsed -/

instance (s : State Thread) (position : Position) : Decidable (position.Whole s) := by
  unfold Position.Whole
  split <;> infer_instance

instance (s s' : State Bool) : Decidable (Whole s s') := by
  unfold Whole
  infer_instance

/-- `main` and `b` import `a`. -/
def halfFiles (path : String) : SourceFile :=
  if path = "main" then { imports := ["a", "b"] }
  else if path = "b" then { imports := ["a"] }
  else {}

/-- One thread parses `main`, the other takes `a` and sets `imp->body`; before `a` is parsed,
the first thread parses `b` and registers `a`. -/
def halfOrder : List Bool :=
  List.replicate 15 true ++ List.replicate 3 false ++ List.replicate 9 true

theorem not_waits : ¬ ∀ (Thread : Type) [DecidableEq Thread] (files : String → SourceFile)
    (initialFile : String) (s : State Thread), (run Thread files initialFile).Reachable s →
      WaitsForImports files s := by
  intro h
  have hexec : ((start Bool "main").exec halfFiles (fun _ _ => true) halfOrder).map (fun s =>
      ((takeFirst s.ready s.tasks).map fun taken => (taken.1.type, taken.1.imp),
        s.dependencies halfFiles 3, (s.imports 3).sharedScopes,
        (s.imports 2).name, (s.imports 2).returned)) =
      some (some (.checkStructs, some 3), ["a"], [2], "a", false) := by
    decide +kernel
  obtain ⟨s, hs, hfields⟩ := Option.map_eq_some_iff.mp hexec
  simp only [Prod.mk.injEq, Option.map_eq_some_iff] at hfields
  obtain ⟨⟨⟨task, rest⟩, htaken, htype, himp⟩, hdependencies, hshared, hname, hreturned⟩ := hfields
  have hmem : "a" ∈ s.dependencies halfFiles 3 := by rw [hdependencies]; simp
  obtain ⟨dep, hdep, hparsed⟩ := h Bool halfFiles "main" s
    (State.reachable_exec (.start rfl) hs).of_restrict task rest 3 htaken htype himp (by decide)
    "a" hmem
  rw [hshared] at hdep
  have htwo : dep = 2 := by simpa [hname] using hdep.symm
  rw [htwo, hreturned] at hparsed
  cases hparsed

/-- One thread alone, up to the check of the structures of `main`. -/
theorem waits_of_whole_alone :
    ∃ s, (start Bool "main").exec halfFiles (fun s s' => Whole s s') (List.replicate 30 true) =
      some s ∧ WaitsForImports halfFiles s := by
  have hsome : ((start Bool "main").exec halfFiles (fun s s' => Whole s s')
      (List.replicate 30 true)).isSome = true := by
    decide +kernel
  obtain ⟨s, hs⟩ := Option.isSome_iff_exists.mp hsome
  have hreach : ((run Bool halfFiles "main").restrict Whole).Reachable s := by
    simpa using State.reachable_exec (.start rfl) hs
  exact ⟨s, hs, waits_of_whole hreach⟩

end TinCompiler.Registration
