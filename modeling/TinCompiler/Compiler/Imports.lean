import TinCompiler.Compiler.Tasks
import Mathlib.Algebra.BigOperators.Group.Finset.Basic
import Mathlib.Algebra.BigOperators.Group.Finset.Piecewise

/-!
# The imports and what they wait for

`deps_count`, `deps_now` and the fixups of the imports through `TASK_LEX_FILE`.  An import
that is not parsed waits for nothing; an import that is parsed waits for the files in whose
fixups it still stands (`ImportsSound.counted`).  This is what keeps the loop from getting
stuck.
-/

namespace TinCompiler

open Finset

namespace Compiler

variable {c : Compiler} {imp dep i : ℕ}

/-! ## The fields after each operation -/

section Fields

@[simp] theorem modifyImport_self (f : Import → Import) :
    (c.modifyImport imp f).imports imp = f (c.imports imp) := by
  simp [modifyImport]

theorem modifyImport_of_ne (f : Import → Import) (hne : i ≠ imp) :
    (c.modifyImport imp f).imports i = c.imports i := by
  simp [modifyImport, hne]

theorem modifyImport_imports (f : Import → Import) (i : ℕ) :
    (c.modifyImport imp f).imports i = if i = imp then f (c.imports i) else c.imports i := by
  by_cases heq : i = imp
  · subst heq
    simp
  · rw [modifyImport_of_ne f heq, if_neg heq]

/-- Everything but the imports and the scopes is the same. -/
structure SameWork (c c' : Compiler) : Prop where
  importsUsed : c'.importsUsed = c.importsUsed
  importMap : c'.importMap = c.importMap
  tasks : c'.tasks = c.tasks
  processed : c'.processed = c.processed
  reporter : c'.reporter = c.reporter
  typesUsed : c'.ast.typesUsed = c.ast.typesUsed
  typeInfos : c'.ast.typeInfos = c.ast.typeInfos
  structuresUsed : c'.ast.structuresUsed = c.ast.structuresUsed
  structures : c'.ast.structures = c.ast.structures

theorem SameWork.refl (c : Compiler) : SameWork c c :=
  ⟨rfl, rfl, rfl, rfl, rfl, rfl, rfl, rfl, rfl⟩

theorem SameWork.trans {c' c'' : Compiler} (h : SameWork c c') (h' : SameWork c' c'') :
    SameWork c c'' where
  importsUsed := h'.importsUsed.trans h.importsUsed
  importMap := h'.importMap.trans h.importMap
  tasks := h'.tasks.trans h.tasks
  processed := h'.processed.trans h.processed
  reporter := h'.reporter.trans h.reporter
  typesUsed := h'.typesUsed.trans h.typesUsed
  typeInfos := h'.typeInfos.trans h.typeInfos
  structuresUsed := h'.structuresUsed.trans h.structuresUsed
  structures := h'.structures.trans h.structures

theorem sameWork_modifyImport (f : Import → Import) : SameWork c (c.modifyImport imp f) :=
  ⟨rfl, rfl, rfl, rfl, rfl, rfl, rfl, rfl, rfl⟩

theorem sameWork_shareImport (shared : ℕ) : SameWork c (c.shareImport imp shared) := by
  unfold shareImport
  split
  · exact ⟨rfl, rfl, rfl, rfl, rfl, rfl, rfl, rfl, rfl⟩
  · exact .refl c

@[simp] theorem shareImport_imports (shared : ℕ) :
    (c.shareImport imp shared).imports = c.imports := by
  unfold shareImport
  split <;> rfl

theorem sameWork_waitFor : SameWork c (c.waitFor imp dep) :=
  (sameWork_modifyImport _).trans (sameWork_modifyImport _)

theorem waitFor_imports (hne : imp ≠ dep) (i : ℕ) :
    (c.waitFor imp dep).imports i =
      { c.imports i with
        fixups := if i = dep then (c.imports i).fixups ++ [imp] else (c.imports i).fixups
        depsCount := if i = imp then (c.imports i).depsCount + 1
          else (c.imports i).depsCount } := by
  unfold waitFor
  rw [modifyImport_imports, modifyImport_imports]
  by_cases himp : i = imp
  · subst himp
    simp [hne]
  · by_cases hdep : i = dep
    · simp [hdep, Ne.symm hne]
    · simp [himp, hdep]

theorem sameWork_resolveFixup (waiting : ℕ) : SameWork c (resolveFixup imp c waiting) :=
  (sameWork_modifyImport _).trans (sameWork_shareImport _)

theorem resolveFixup_imports (waiting i : ℕ) :
    (resolveFixup imp c waiting).imports i =
      { c.imports i with
        depsNow := (c.imports i).depsNow + if waiting = i then 1 else 0 } := by
  unfold resolveFixup
  rw [shareImport_imports, modifyImport_imports]
  by_cases heq : i = waiting
  · subst heq
    simp
  · simp [heq, Ne.symm heq]

theorem foldl_resolveFixup (fixups : List ℕ) : ∀ c : Compiler,
    SameWork c (fixups.foldl (resolveFixup imp) c) ∧
    ∀ i, (fixups.foldl (resolveFixup imp) c).imports i =
      { c.imports i with depsNow := (c.imports i).depsNow + fixups.count i } := by
  induction fixups with
  | nil => exact fun c => ⟨.refl c, fun _ => rfl⟩
  | cons waiting fixups ih =>
      intro c
      obtain ⟨hwork, himports⟩ := ih (resolveFixup imp c waiting)
      refine ⟨(sameWork_resolveFixup waiting).trans hwork, fun i => ?_⟩
      rw [List.foldl_cons, himports, resolveFixup_imports, List.count_cons]
      by_cases heq : waiting = i <;> simp [heq, Nat.add_assoc, Nat.add_comm]

theorem sameWork_resolveFixups : SameWork c (c.resolveFixups imp) :=
  (foldl_resolveFixup _ c).1.trans (sameWork_modifyImport _)

theorem resolveFixups_imports (i : ℕ) :
    (c.resolveFixups imp).imports i =
      { c.imports i with
        depsNow := (c.imports i).depsNow + (c.imports imp).fixups.count i
        fixups := if i = imp then [] else (c.imports i).fixups } := by
  unfold resolveFixups
  rw [modifyImport_imports, (foldl_resolveFixup _ c).2]
  by_cases heq : i = imp <;> simp [heq]

end Fields

/-! ## A parsed file -/

/-- `TASK_LEX_FILE` up to the loop over the dependencies. -/
def parsed (imp : ℕ) (file : SourceFile) (c : Compiler) : Compiler :=
  ((c.setParsed imp file).resolveFixups imp).modifyImport imp fun i =>
    { i with depsNow := 0, depsCount := 0 }

theorem sameWork_parsed (file : SourceFile) :
    SameWork (c.setParsed imp file) (c.parsed imp file) :=
  sameWork_resolveFixups.trans (sameWork_modifyImport _)

theorem parsed_imports_self (file : SourceFile) :
    (c.parsed imp file).imports imp =
      { name := (c.imports imp).name
        body := some (parseFile file c.ast).1
        dependencies := file.imports.foldl addDependency (c.imports imp).dependencies } := by
  unfold parsed
  rw [modifyImport_self, resolveFixups_imports]
  simp [setParsed]

theorem parsed_imports_of_ne (file : SourceFile) (hne : i ≠ imp) :
    (c.parsed imp file).imports i =
      { c.imports i with
        depsNow := (c.imports i).depsNow + (c.imports imp).fixups.count i } := by
  unfold parsed
  rw [modifyImport_of_ne _ hne, resolveFixups_imports]
  simp [setParsed, hne]

theorem lexFileTask_eq (files : String → SourceFile) (task : Task) (c : Compiler) :
    c.lexFileTask files task =
      (some { task with type := .checkStructs, imp := some (c.importOf task).1 },
        { ((c.importOf task).2.parsed (c.importOf task).1 (files task.name)).imports
            (c.importOf task).1 |>.dependencies.foldl (registerDependency (c.importOf task).1)
              ((c.importOf task).2.parsed (c.importOf task).1 (files task.name)) with
          processed := (((c.importOf task).2.parsed (c.importOf task).1 (files task.name)).imports
            (c.importOf task).1 |>.dependencies.foldl (registerDependency (c.importOf task).1)
              ((c.importOf task).2.parsed (c.importOf task).1 (files task.name))).processed ++
                [(.lexFile, (c.importOf task).1)] }) :=
  rfl

/-! ## The invariant -/

/-- The imports and the counters by which they wait. -/
structure ImportsSound (c : Compiler) : Prop where
  unused : ∀ i, c.importsUsed ≤ i → c.imports i = {}
  builtin : (c.imports 0).body ≠ none
  named : ∀ name i, c.importMap name = some i → i < c.importsUsed ∧ (c.imports i).name = name
  mapped : ∀ i < c.importsUsed, i ≠ 0 → c.importMap (c.imports i).name = some i
  blank : ∀ i, (c.imports i).body = none →
    (c.imports i).depsCount = 0 ∧ (c.imports i).depsNow = 0 ∧ (c.imports i).dependencies = []
  resolved : ∀ i, (c.imports i).body ≠ none → (c.imports i).fixups = []
  waiting : ∀ i j, i ∈ (c.imports j).fixups → (c.imports i).body ≠ none
  counted : ∀ i, (c.imports i).depsCount =
    (c.imports i).depsNow + ∑ j ∈ range c.importsUsed, (c.imports j).fixups.count i

namespace ImportsSound

theorem lt_importsUsed (h : ImportsSound c) (hparsed : (c.imports i).body ≠ none) :
    i < c.importsUsed := by
  by_contra hge
  rw [h.unused i (Nat.le_of_not_lt hge)] at hparsed
  exact hparsed rfl

/-- With every file parsed nothing waits. -/
theorem ready_of_all_parsed (h : ImportsSound c)
    (hparsed : ∀ i < c.importsUsed, (c.imports i).body ≠ none) (i : ℕ) :
    (c.imports i).depsCount = (c.imports i).depsNow := by
  rw [h.counted i, Finset.sum_eq_zero, Nat.add_zero]
  intro j hj
  rw [h.resolved j (hparsed j (mem_range.mp hj)), List.count_nil]

theorem congr {c' : Compiler} (h : ImportsSound c) (himports : c'.imports = c.imports)
    (hused : c'.importsUsed = c.importsUsed) (hmap : c'.importMap = c.importMap) :
    ImportsSound c' := by
  obtain ⟨hunused, hbuiltin, hnamed, hmapped, hblank, hresolved, hwaiting, hcounted⟩ := h
  rw [← himports] at *
  rw [← hused] at hunused hnamed hmapped hcounted
  rw [← hmap] at hnamed hmapped
  exact ⟨hunused, hbuiltin, hnamed, hmapped, hblank, hresolved, hwaiting, hcounted⟩

/-- A new import, under a name that no file has yet. -/
theorem createImport (h : ImportsSound c) {name : String}
    (hnew : ∀ i, c.importMap name = some i → i = 0) : ImportsSound (c.createImport name).2 := by
  have hlt : 0 < c.importsUsed := h.lt_importsUsed h.builtin
  have hself : (c.createImport name).2.imports c.importsUsed = { name := name } := by
    simp [Compiler.createImport]
  have hother : ∀ i, i ≠ c.importsUsed → (c.createImport name).2.imports i = c.imports i :=
    fun i hne => by simp [Compiler.createImport, hne]
  have hold : ∀ i, i < c.importsUsed → (c.createImport name).2.imports i = c.imports i :=
    fun i hi => hother i (Nat.ne_of_lt hi)
  have hfixups : ∀ i, ((c.createImport name).2.imports i).fixups = (c.imports i).fixups := by
    intro i
    by_cases heq : i = c.importsUsed
    · rw [heq, hself, h.unused _ (Nat.le_refl _)]
    · rw [hother i heq]
  refine ⟨?_, ?_, ?_, ?_, ?_, ?_, ?_, ?_⟩
  · intro i hle
    have hle : c.importsUsed + 1 ≤ i := hle
    rw [hother i (by omega), h.unused i (by omega)]
  · rw [hold 0 hlt]
    exact h.builtin
  · intro other i hmap
    by_cases heq : other = name
    · subst heq
      have hi : c.importsUsed = i := by simpa [Compiler.createImport] using hmap
      subst hi
      exact ⟨Nat.lt_succ_self _, by rw [hself]⟩
    · have hmap : c.importMap other = some i := by simpa [Compiler.createImport, heq] using hmap
      obtain ⟨hi, hname⟩ := h.named other i hmap
      exact ⟨Nat.lt_succ_of_lt hi, by rw [hold i hi, hname]⟩
  · intro i hi hne
    by_cases heq : i = c.importsUsed
    · subst heq
      rw [hself]
      simp [Compiler.createImport]
    · have hi : i < c.importsUsed := by
        have : i < c.importsUsed + 1 := hi
        omega
      have hmap := h.mapped i hi hne
      rw [hold i hi]
      have hname : (c.imports i).name ≠ name := fun hname =>
        hne (hnew i (hname ▸ hmap))
      simpa [Compiler.createImport, hname] using hmap
  · intro i hbody
    by_cases heq : i = c.importsUsed
    · subst heq
      rw [hself]
      exact ⟨rfl, rfl, rfl⟩
    · rw [hother i heq] at hbody ⊢
      exact h.blank i hbody
  · intro i hbody
    by_cases heq : i = c.importsUsed
    · subst heq
      rw [hself]
    · rw [hother i heq] at hbody ⊢
      exact h.resolved i hbody
  · intro i j hmem
    rw [hfixups j] at hmem
    have hparsed := h.waiting i j hmem
    rwa [hold i (h.lt_importsUsed hparsed)]
  · intro i
    have hsum : ∑ j ∈ range (c.importsUsed + 1), ((c.createImport name).2.imports j).fixups.count i =
        ∑ j ∈ range c.importsUsed, (c.imports j).fixups.count i := by
      simp only [hfixups, sum_range_succ]
      rw [h.unused _ (Nat.le_refl _), List.count_nil, Nat.add_zero]
    calc ((c.createImport name).2.imports i).depsCount
        = (c.imports i).depsCount := by
          by_cases heq : i = c.importsUsed
          · rw [heq, hself, h.unused _ (Nat.le_refl _)]
          · rw [hother i heq]
      _ = (c.imports i).depsNow + ∑ j ∈ range c.importsUsed, (c.imports j).fixups.count i :=
          h.counted i
      _ = ((c.createImport name).2.imports i).depsNow +
            ∑ j ∈ range c.importsUsed, (c.imports j).fixups.count i := by
          by_cases heq : i = c.importsUsed
          · rw [heq, hself, h.unused _ (Nat.le_refl _)]
          · rw [hother i heq]
      _ = _ := by rw [← hsum]; rfl

/-- A parsed import waits for one that is not. -/
theorem waitFor (h : ImportsSound c) (himp : (c.imports imp).body ≠ none)
    (hdep : (c.imports dep).body = none) (hlt : dep < c.importsUsed) :
    ImportsSound (c.waitFor imp dep) := by
  have hne : imp ≠ dep := fun heq => himp (heq ▸ hdep)
  have hwork := @sameWork_waitFor c imp dep
  have himports := fun i => waitFor_imports (c := c) hne i
  have hi := h.lt_importsUsed himp
  refine ⟨?_, ?_, ?_, ?_, ?_, ?_, ?_, ?_⟩
  · intro i hle
    rw [hwork.importsUsed] at hle
    rw [himports, if_neg (by omega), if_neg (by omega)]
    exact h.unused i hle
  · rw [himports]
    exact h.builtin
  · intro name i hmap
    rw [hwork.importMap] at hmap
    rw [hwork.importsUsed, himports]
    exact h.named name i hmap
  · intro i hi hzero
    rw [hwork.importsUsed] at hi
    rw [hwork.importMap, himports]
    exact h.mapped i hi hzero
  · intro i hbody
    rw [himports] at hbody ⊢
    have hother : i ≠ imp := fun heq => himp (heq ▸ hbody)
    simpa [hother] using h.blank i hbody
  · intro i hbody
    rw [himports] at hbody ⊢
    have hother : i ≠ dep := fun heq => hbody (heq ▸ hdep)
    simpa [hother] using h.resolved i hbody
  · intro i j hmem
    rw [himports] at hmem ⊢
    by_cases hj : j = dep
    · simp only [hj, if_true, List.mem_append, List.mem_singleton] at hmem
      rcases hmem with hmem | rfl
      · exact h.waiting i dep hmem
      · exact himp
    · simp only [hj, if_false] at hmem
      exact h.waiting i j hmem
  · intro i
    have hcount : ∀ j, ((c.waitFor imp dep).imports j).fixups.count i =
        (c.imports j).fixups.count i + if j = dep then (if i = imp then 1 else 0) else 0 := by
      intro j
      rw [himports]
      by_cases hj : j = dep
      · by_cases heq : i = imp
        · simp [hj, heq]
        · simp [hj, heq, List.count_cons, Ne.symm heq]
      · simp [hj]
    simp only [hwork.importsUsed, hcount, sum_add_distrib, sum_ite_eq', mem_range, hlt, if_true]
    have hcounted := h.counted i
    calc ((c.waitFor imp dep).imports i).depsCount
        = (c.imports i).depsCount + if i = imp then 1 else 0 := by
          rw [himports]
          by_cases heq : i = imp <;> simp [heq]
      _ = (c.imports i).depsNow + (∑ j ∈ range c.importsUsed, (c.imports j).fixups.count i +
            if i = imp then 1 else 0) := by omega
      _ = ((c.waitFor imp dep).imports i).depsNow + (∑ j ∈ range c.importsUsed,
            (c.imports j).fixups.count i + if i = imp then 1 else 0) := by rw [himports]

/-- The file of `imp` is parsed and the imports that wait for it are told so. -/
theorem parsed (h : ImportsSound c) (file : SourceFile) (himp : (c.imports imp).body = none)
    (hlt : imp < c.importsUsed) : ImportsSound (c.parsed imp file) := by
  have hused : (c.parsed imp file).importsUsed = c.importsUsed :=
    (sameWork_parsed file).importsUsed
  have hmap : (c.parsed imp file).importMap = c.importMap := (sameWork_parsed file).importMap
  have hself : (c.parsed imp file).imports imp = _ := parsed_imports_self file
  have hother : ∀ i, i ≠ imp → (c.parsed imp file).imports i =
      { c.imports i with
        depsNow := (c.imports i).depsNow + (c.imports imp).fixups.count i } :=
    fun i hne => parsed_imports_of_ne file hne
  have hname : ∀ i, ((c.parsed imp file).imports i).name = (c.imports i).name := by
    intro i
    by_cases heq : i = imp
    · rw [heq, hself]
    · rw [hother i heq]
  -- nothing waits on behalf of a file that is not parsed
  have hnot : ∀ j, (c.imports j).fixups.count imp = 0 := fun j =>
    List.count_eq_zero.mpr fun hmem => h.waiting imp j hmem himp
  have hfixups : ∀ i, ((c.parsed imp file).imports i).fixups =
      if i = imp then [] else (c.imports i).fixups := by
    intro i
    by_cases heq : i = imp
    · rw [heq, hself, if_pos rfl]
    · rw [hother i heq, if_neg heq]
  refine ⟨?_, ?_, ?_, ?_, ?_, ?_, ?_, ?_⟩
  · intro i hle
    rw [hused] at hle
    have hnone : (c.imports imp).fixups.count i = 0 := List.count_eq_zero.mpr fun hmem =>
      h.waiting i imp hmem (by rw [h.unused i hle])
    rw [hother i (by omega), hnone, h.unused i hle]
  · by_cases heq : 0 = imp
    · rw [← heq] at himp
      exact absurd himp h.builtin
    · rw [hother 0 heq]
      exact h.builtin
  · intro name i
    rw [hmap, hused, hname]
    exact h.named name i
  · intro i
    rw [hmap, hused, hname]
    exact h.mapped i
  · intro i hbody
    have heq : i ≠ imp := fun heq => by rw [heq, hself] at hbody; cases hbody
    have hnone : (c.imports imp).fixups.count i = 0 := List.count_eq_zero.mpr fun hmem =>
      h.waiting i imp hmem (by rwa [hother i heq] at hbody)
    rw [hother i heq] at hbody ⊢
    rw [hnone]
    exact h.blank i hbody
  · intro i hbody
    rw [hfixups]
    by_cases heq : i = imp
    · rw [if_pos heq]
    · rw [if_neg heq]
      rw [hother i heq] at hbody
      exact h.resolved i hbody
  · intro i j hmem
    rw [hfixups] at hmem
    by_cases hj : j = imp
    · simp [hj] at hmem
    · rw [if_neg hj] at hmem
      have hparsed := h.waiting i j hmem
      have heq : i ≠ imp := fun heq => hparsed (heq ▸ himp)
      rwa [hother i heq]
  · intro i
    have hsum : (∑ j ∈ range c.importsUsed, ((c.parsed imp file).imports j).fixups.count i) +
        (c.imports imp).fixups.count i = ∑ j ∈ range c.importsUsed, (c.imports j).fixups.count i := by
      have hsplit : ∀ f : ℕ → ℕ, ∑ j ∈ range c.importsUsed, f j =
          (∑ j ∈ (range c.importsUsed).erase imp, f j) + f imp :=
        fun f => (sum_erase_add _ _ (mem_range.mpr hlt)).symm
      rw [hsplit, hsplit fun j => (c.imports j).fixups.count i, hfixups imp, if_pos rfl,
        List.count_nil, Nat.add_zero]
      congr 1
      refine sum_congr rfl fun j hj => ?_
      rw [hfixups, if_neg (ne_of_mem_erase hj)]
    rw [hused]
    by_cases heq : i = imp
    · subst heq
      have hzero : ∑ j ∈ range c.importsUsed, (c.imports j).fixups.count i = 0 :=
        sum_eq_zero fun j _ => hnot j
      rw [hself]
      have := hnot i
      change 0 = 0 + _
      omega
    · have hcounted := h.counted i
      rw [hother i heq]
      change (c.imports i).depsCount = (c.imports i).depsNow + _ + _
      omega

/-- One dependency of a parsed import. -/
theorem registerDependency (h : ImportsSound c) (path : String)
    (himp : (c.imports imp).body ≠ none) : ImportsSound (registerDependency imp c path) := by
  unfold Compiler.registerDependency
  have hi := h.lt_importsUsed himp
  split
  · next hnone =>
      have hcreated : ImportsSound (c.createImport path).2 := h.createImport (by simp [hnone])
      refine ImportsSound.congr (c := (c.createImport path).2.waitFor imp c.importsUsed) ?_ rfl rfl rfl
      refine hcreated.waitFor ?_ ?_ (Nat.lt_succ_self _)
      · simpa [Compiler.createImport, Nat.ne_of_lt hi] using himp
      · simp [Compiler.createImport]
  · next dep hdep =>
      split
      · exact h.congr (shareImport_imports _) (sameWork_shareImport _).importsUsed
          (sameWork_shareImport _).importMap
      · next hbody => exact h.waitFor himp hbody (h.named path dep hdep).1

end ImportsSound

end Compiler

end TinCompiler
