import TinCompiler.Compiler.Queue
import TinCompiler.Structs.Pass
import TinCompiler.Structs.Permutation
import Mathlib.Data.Finset.Card
import Mathlib.Data.List.GetD

/-!
# The invariant of the task loop

`Sound` holds before and after every task, whatever the files import and declare
(`sound_of_reachable`): the imports wait as `ImportsSound` says, the tasks are those
`QueueSound` allows, and the structures of the tables are those the parsed files declare.
-/

namespace TinCompiler

/-- The name and the type strings of the members, as the parser reads them. -/
def SourceStruct.declaration (source : SourceStruct) : String × List String :=
  (source.name, source.members.map Member.typeString)

theorem createScopes_structures (ast : AST) (scopes : List ℕ) :
    (createScopes ast scopes).typesUsed = ast.typesUsed ∧
    (createScopes ast scopes).typeInfos = ast.typeInfos ∧
    (createScopes ast scopes).structuresUsed = ast.structuresUsed ∧
    (createScopes ast scopes).structures = ast.structures := by
  have hfold : ∀ (scopes : List ℕ) (created : AST),
      (scopes.foldl (fun tables parent => (tables.createScope (ast.scopesUsed + parent)).2)
        created).typesUsed = created.typesUsed ∧
      (scopes.foldl (fun tables parent => (tables.createScope (ast.scopesUsed + parent)).2)
        created).typeInfos = created.typeInfos ∧
      (scopes.foldl (fun tables parent => (tables.createScope (ast.scopesUsed + parent)).2)
        created).structuresUsed = created.structuresUsed ∧
      (scopes.foldl (fun tables parent => (tables.createScope (ast.scopesUsed + parent)).2)
        created).structures = created.structures := by
    intro scopes
    induction scopes with
    | nil => exact fun _ => ⟨rfl, rfl, rfl, rfl⟩
    | cons parent scopes ih => exact fun created => ih _
  exact hfold scopes _

theorem install_of_lt {α : Type} {used i : ℕ} (old : ℕ → α) (new : List α) (hlt : i < used) :
    install used old new i = old i :=
  if_pos hlt

theorem install_of_le {α : Type} {used i : ℕ} (old : ℕ → α) (new : List α) (hle : used ≤ i) :
    install used old new i = new.getD (i - used) (old i) :=
  if_neg (Nat.not_lt.mpr hle)

section ParseFile

variable (file : SourceFile) (ast : AST)

theorem parseFile_structures :
    (parseFile file ast).2.structures =
      install ast.structuresUsed ast.structures (file.structures.map SourceStruct.node) :=
  rfl

theorem parseFile_structuresUsed :
    (parseFile file ast).2.structuresUsed = ast.structuresUsed + file.structures.length :=
  rfl

theorem parseFile_body_structures :
    (parseFile file ast).1.structures = List.range' ast.structuresUsed file.structures.length :=
  rfl

variable {ast}

/-- The structures of a parsed file are those that it declares. -/
theorem parseFile_declared :
    (parseFile file ast).1.structures.map (parseFile file ast).2.declaration =
      file.structures.map SourceStruct.declaration := by
  refine List.ext_getElem (by simp [parseFile_body_structures]) fun n hn hlt => ?_
  rw [List.length_map] at hlt
  simp only [List.getElem_map, parseFile_body_structures, List.getElem_range', AST.declaration,
    parseFile_structures, Nat.one_mul]
  rw [install_of_le _ _ (Nat.le_add_right _ _), Nat.add_sub_cancel_left,
    List.getD_eq_getElem _ _ (by simpa using hlt)]
  simp [SourceStruct.node, SourceStruct.declaration]

/-- A structure behind the used ones has no type yet, before and after parsing. -/
theorem parseFile_marks (hunused : ∀ s, ast.structuresUsed ≤ s → ast.structures s = {}) (s : ℕ) :
    ((parseFile file ast).2.structures s).complete = (ast.structures s).complete ∧
    ((parseFile file ast).2.structures s).createdType = (ast.structures s).createdType ∧
    ((parseFile file ast).2.structures s).typeInfo = (ast.structures s).typeInfo := by
  rw [parseFile_structures]
  by_cases hlt : s < ast.structuresUsed
  · rw [install_of_lt _ _ hlt]
    exact ⟨rfl, rfl, rfl⟩
  · have hle := Nat.le_of_not_lt hlt
    rw [install_of_le _ _ hle, hunused s hle]
    by_cases hnew : s - ast.structuresUsed < (file.structures.map SourceStruct.node).length
    · rw [List.getD_eq_getElem _ _ hnew, List.getElem_map]
      exact ⟨rfl, rfl, rfl⟩
    · rw [List.getD_eq_default _ _ (Nat.le_of_not_lt hnew)]
      exact ⟨rfl, rfl, rfl⟩

end ParseFile

/-- The invariant depends on the entries and on the marks of the structures. -/
theorem TableInvariant.congr {ast ast' : AST} (h : TableInvariant ast)
    (hused : ast'.typesUsed = ast.typesUsed) (hinfos : ast'.typeInfos = ast.typeInfos)
    (hmarks : ∀ s, (ast'.structures s).complete = (ast.structures s).complete ∧
      (ast'.structures s).createdType = (ast.structures s).createdType ∧
      (ast'.structures s).typeInfo = (ast.structures s).typeInfo) : TableInvariant ast' := by
  refine ⟨?_, ?_, ?_, ?_, ?_, ?_⟩
  · rw [hused, hinfos]
    exact h.fresh
  · intro s
    rw [(hmarks s).2.1, (hmarks s).2.2]
    exact h.created s
  · intro s id
    rw [(hmarks s).2.2, hinfos]
    exact h.owned s id
  · intro s id
    rw [(hmarks s).1, (hmarks s).2.2, hinfos]
    exact h.sized s id
  · intro s
    rw [(hmarks s).1, (hmarks s).2.1]
    exact h.complete_created s
  · intro s
    rw [(hmarks s).2.1, (hmarks s).2.2]
    exact h.uncreated s

namespace Compiler

variable {files : String → SourceFile} {initialFile : String} {c c' : Compiler}
  {live rest : List Task} {task : Task} {imp i : ℕ}

/-- The structures of the tables and the files that declare them. -/
structure StructsSound (files : String → SourceFile) (c : Compiler) : Prop where
  table : TableInvariant c.ast
  unused : ∀ s, c.ast.structuresUsed ≤ s → c.ast.structures s = {}
  within : ∀ i body, (c.imports i).body = some body →
    ∀ s ∈ body.structures, s < c.ast.structuresUsed
  nodup : ∀ i body, (c.imports i).body = some body → body.structures.Nodup
  disjoint : ∀ i j body other, i ≠ j → (c.imports i).body = some body →
    (c.imports j).body = some other → ∀ s ∈ body.structures, s ∉ other.structures
  builtin : ∀ body, (c.imports 0).body = some body → body.structures = []
  declared : ∀ i, i ≠ 0 → ∀ body, (c.imports i).body = some body →
    body.structures.map c.ast.declaration =
      (files (c.imports i).name).structures.map SourceStruct.declaration

namespace StructsSound

/-- A step that leaves the structures and the bodies. -/
theorem congr (h : StructsSound files c)
    (hbody : ∀ i, (c'.imports i).body = (c.imports i).body)
    (hname : ∀ i, (c.imports i).body ≠ none → (c'.imports i).name = (c.imports i).name)
    (htypesUsed : c'.ast.typesUsed = c.ast.typesUsed)
    (htypeInfos : c'.ast.typeInfos = c.ast.typeInfos)
    (hused : c'.ast.structuresUsed = c.ast.structuresUsed)
    (hstructures : c'.ast.structures = c.ast.structures) : StructsSound files c' := by
  have hdeclaration : c'.ast.declaration = c.ast.declaration := by
    funext s
    simp only [AST.declaration, hstructures]
  refine ⟨h.table.congr htypesUsed htypeInfos (by simp [hstructures]), ?_, ?_, ?_, ?_, ?_, ?_⟩
  · rw [hused, hstructures]
    exact h.unused
  · intro i body
    rw [hbody, hused]
    exact h.within i body
  · intro i body
    rw [hbody]
    exact h.nodup i body
  · intro i j body other
    rw [hbody, hbody]
    exact h.disjoint i j body other
  · intro body
    rw [hbody]
    exact h.builtin body
  · intro i hi body hsome
    rw [hbody] at hsome
    rw [hdeclaration, hname i (by simp [hsome])]
    exact h.declared i hi body hsome

theorem sameWork (h : StructsSound files c) (hwork : SameWork c c')
    (hbody : ∀ i, (c'.imports i).body = (c.imports i).body)
    (hname : ∀ i, (c'.imports i).name = (c.imports i).name) : StructsSound files c' :=
  h.congr hbody (fun i _ => hname i) hwork.typesUsed hwork.typeInfos hwork.structuresUsed
    hwork.structures

/-- The file of `imp` is parsed. -/
theorem parsed (h : StructsSound files c) (hnew : (c.imports imp).body = none)
    (hbuiltin : (c.imports 0).body ≠ none) :
    StructsSound files (c.parsed imp (files (c.imports imp).name)) := by
  set file := files (c.imports imp).name with hfile
  have hwork : SameWork (c.setParsed imp file) (c.parsed imp file) := sameWork_parsed file
  have hscopes := createScopes_structures c.ast file.scopes
  have htypesUsed : (c.parsed imp file).ast.typesUsed = c.ast.typesUsed :=
    hwork.typesUsed.trans hscopes.1
  have htypeInfos : (c.parsed imp file).ast.typeInfos = c.ast.typeInfos :=
    hwork.typeInfos.trans hscopes.2.1
  have hstructures : (c.parsed imp file).ast.structures = (parseFile file c.ast).2.structures :=
    hwork.structures
  have hused : (c.parsed imp file).ast.structuresUsed =
      c.ast.structuresUsed + file.structures.length := hwork.structuresUsed
  have hself : ((c.parsed imp file).imports imp).body = some (parseFile file c.ast).1 := by
    rw [parsed_imports_self]
  have hother : ∀ i, i ≠ imp → ((c.parsed imp file).imports i).body = (c.imports i).body :=
    fun i hi => by rw [parsed_imports_of_ne file hi]
  have hname : ∀ i, ((c.parsed imp file).imports i).name = (c.imports i).name := by
    intro i
    by_cases hi : i = imp
    · rw [hi, parsed_imports_self]
    · rw [parsed_imports_of_ne file hi]
  have hnew : ∀ s ∈ (parseFile file c.ast).1.structures,
      c.ast.structuresUsed ≤ s ∧ s < c.ast.structuresUsed + file.structures.length := by
    intro s hs
    rw [parseFile_body_structures] at hs
    simpa [List.mem_range'_1] using hs
  have hbody : ∀ i body, ((c.parsed imp file).imports i).body = some body →
      (i = imp ∧ body = (parseFile file c.ast).1) ∨ (i ≠ imp ∧ (c.imports i).body = some body) := by
    intro i body hsome
    by_cases hi : i = imp
    · subst hi
      rw [hself] at hsome
      exact Or.inl ⟨rfl, (Option.some.inj hsome).symm⟩
    · rw [hother i hi] at hsome
      exact Or.inr ⟨hi, hsome⟩
  refine ⟨h.table.congr htypesUsed htypeInfos ?_, ?_, ?_, ?_, ?_, ?_, ?_⟩
  · rw [hstructures]
    exact parseFile_marks file h.unused
  · intro s hle
    rw [hused] at hle
    rw [hstructures, parseFile_structures, install_of_le _ _ (by omega), List.getD_eq_default,
      h.unused s (by omega)]
    rw [List.length_map]
    omega
  · intro i body hsome s hs
    rw [hused]
    rcases hbody i body hsome with ⟨-, rfl⟩ | ⟨-, hold⟩
    · exact (hnew s hs).2
    · exact Nat.lt_add_right _ (h.within i body hold s hs)
  · intro i body hsome
    rcases hbody i body hsome with ⟨-, rfl⟩ | ⟨-, hold⟩
    · exact List.nodup_range'
    · exact h.nodup i body hold
  · intro i j body other hij hi hj s hs
    rcases hbody i body hi with ⟨rfl, rfl⟩ | ⟨-, hiold⟩ <;>
      rcases hbody j other hj with ⟨rfl, rfl⟩ | ⟨-, hjold⟩
    · exact absurd rfl hij
    · exact fun hmem => absurd (h.within j other hjold s hmem) (Nat.not_lt.mpr (hnew s hs).1)
    · exact fun hmem => absurd (h.within i body hiold s hs) (Nat.not_lt.mpr (hnew s hmem).1)
    · exact h.disjoint i j body other hij hiold hjold s hs
  · intro body hsome
    rcases hbody 0 body hsome with ⟨rfl, -⟩ | ⟨-, hold⟩
    · contradiction
    · exact h.builtin body hold
  · intro i hi body hsome
    rw [hname i]
    rcases hbody i body hsome with ⟨rfl, rfl⟩ | ⟨-, hold⟩
    · have hdeclaration : (c.parsed i file).ast.declaration =
          (parseFile file c.ast).2.declaration := by
        funext s
        simp only [AST.declaration, hstructures]
      rw [hdeclaration]
      exact parseFile_declared file
    · rw [← h.declared i hi body hold]
      refine List.map_congr_left fun s hs => ?_
      simp only [AST.declaration, hstructures, parseFile_structures,
        install_of_lt _ _ (h.within i body hold s hs)]

/-- A pass over the structures of one import. -/
theorem attempts (h : StructsSound files c) {body : FileBody}
    (hbody : (c.imports i).body = some body) (himports : c'.imports = c.imports)
    (hast : c'.ast = attempts body.scopeId c.ast body.structures) : StructsSound files c' := by
  refine ⟨?_, ?_, ?_, ?_, ?_, ?_, ?_⟩
  · rw [hast]
    exact h.table.attempts _
  · intro s hle
    rw [hast, attempts_structuresUsed] at hle
    have hnot : s ∉ body.structures := fun hs =>
      absurd (h.within i body hbody s hs) (Nat.not_lt.mpr hle)
    rw [hast, attempts_structures_of_not_mem hnot]
    exact h.unused s hle
  · rw [himports, hast, attempts_structuresUsed]
    exact h.within
  · rw [himports]
    exact h.nodup
  · rw [himports]
    exact h.disjoint
  · rw [himports]
    exact h.builtin
  · intro j hj other hother
    rw [himports] at hother ⊢
    rw [← h.declared j hj other hother]
    refine List.map_congr_left fun s _ => ?_
    rw [hast]
    exact attempts_declaration h.table _

end StructsSound

/-! ## Parsing keeps the invariant -/

/-- `live` are the tasks of the queue together with the one that is processed. -/
structure Sound (files : String → SourceFile) (initialFile : String) (c : Compiler)
    (live : List Task) : Prop where
  imports : ImportsSound c
  structs : StructsSound files c
  queue : QueueSound initialFile c live

namespace Sound

theorem perm {live' : List Task} (h : Sound files initialFile c live) (hperm : live.Perm live') :
    Sound files initialFile c live' :=
  ⟨h.imports, h.structs, h.queue.perm hperm⟩

/-- The queue and the list of processed tasks are no part of it, but for the checks and the
generation. -/
theorem congr (h : Sound files initialFile c live) (himports : c'.imports = c.imports)
    (hused : c'.importsUsed = c.importsUsed) (hmap : c'.importMap = c.importMap)
    (hast : c'.ast = c.ast) (hreporter : c'.reporter = c.reporter)
    (hprocessed : ∀ i, ((.checkFunctions, i) ∈ c'.processed ↔ (.checkFunctions, i) ∈ c.processed) ∧
      ((.genFunctions, i) ∈ c.processed → (.genFunctions, i) ∈ c'.processed)) :
    Sound files initialFile c' live where
  imports := h.imports.congr himports hused hmap
  structs := h.structs.congr (by simp [himports]) (by simp [himports]) (by rw [hast]) (by rw [hast])
    (by rw [hast]) (by rw [hast])
  queue := h.queue.congr hused (by simp [himports]) (by simp [hast]) fun i =>
    ⟨by rw [himports], fun _ _ _ _ => by rw [hast], by rw [hreporter], (hprocessed i).1,
      (hprocessed i).2⟩

theorem setTasks (h : Sound files initialFile c live) (tasks : List Task) :
    Sound files initialFile { c with tasks := tasks } live :=
  h.congr rfl rfl rfl rfl rfl fun _ => ⟨Iff.rfl, id⟩

end Sound

/-- A file that is found gets an import and a task. -/
theorem QueueSound.createImport (h : QueueSound initialFile c live)
    (hlate : ∀ task ∈ live, task.imp ≠ none) (name : String) :
    QueueSound initialFile (c.createImport name).2
      ({ type := .lexFile, name := name, imp := some c.importsUsed } :: live) := by
  have hself : (c.createImport name).2.imports c.importsUsed = { name := name } := by
    simp [Compiler.createImport]
  have hold : ∀ i, i < c.importsUsed → (c.createImport name).2.imports i = c.imports i :=
    fun i hi => by simp [Compiler.createImport, Nat.ne_of_lt hi]
  have hlt : ∀ task ∈ live, ∀ i, task.imp = some i → i < c.importsUsed :=
    fun task ht i himp => (h.parsed task ht i himp).1
  refine ⟨?_, ?_, ?_, ?_, ?_, ?_, fun i hmem => ?_, ?_⟩
  · refine List.nodup_cons.mpr ⟨fun hmem => ?_, h.single⟩
    obtain ⟨task, ht, himp⟩ := List.mem_map.mp hmem
    exact Nat.lt_irrefl _ (hlt task ht _ himp)
  · intro task ht i himp
    rcases List.mem_cons.mp ht with rfl | ht
    · obtain rfl : c.importsUsed = i := Option.some.inj himp
      exact ⟨Nat.lt_succ_self _, by simp [hself]⟩
    · have hi := hlt task ht i himp
      rw [hold i hi]
      exact ⟨Nat.lt_succ_of_lt hi, (h.parsed task ht i himp).2⟩
  · intro task ht hnone
    rcases List.mem_cons.mp ht with rfl | ht
    · cases hnone
    · exact absurd hnone (hlate task ht)
  · intro task ht htype i himp
    rcases List.mem_cons.mp ht with rfl | ht
    · obtain rfl : c.importsUsed = i := Option.some.inj himp
      rw [hself]
    · rw [hold i (hlt task ht i himp)]
      exact h.named task ht htype i himp
  · intro task ht htype
    rcases List.mem_cons.mp ht with rfl | ht
    · rfl
    · exact h.untried task ht htype
  · intro task ht htried i body himp hbody
    rcases List.mem_cons.mp ht with rfl | ht
    · cases htried
    · rw [hold i (hlt task ht i himp)] at hbody
      exact h.tried task ht htried i body himp hbody
  · obtain ⟨hi, hbody⟩ := h.checked i hmem
    rw [hold i hi]
    exact ⟨Nat.lt_succ_of_lt hi, hbody⟩
  · intro i hi
    by_cases heq : i = c.importsUsed
    · subst heq
      exact .parsing ⟨_, List.mem_cons_self .., rfl, rfl⟩ fun hmem =>
        Nat.lt_irrefl _ (h.checked _ hmem).1
    · have hi : i < c.importsUsed := by
        have : i < c.importsUsed + 1 := hi
        omega
      have hsame : SameStage c (c.createImport name).2 i :=
        ⟨by rw [hold i hi], fun _ _ _ _ => rfl, Nat.le_refl _, Iff.rfl, id⟩
      refine hsame.stage (fun type => ?_) (h.stage i hi)
      exact queued_cons_of_ne (by simpa using Ne.symm heq)

theorem StructsSound.createImport (h : StructsSound files c) (himports : ImportsSound c)
    (name : String) : StructsSound files (c.createImport name).2 := by
  have hunused := himports.unused c.importsUsed (Nat.le_refl _)
  refine h.congr (fun i => ?_) (fun i hbody => ?_) rfl rfl rfl rfl
  · by_cases hi : i = c.importsUsed
    · rw [hi, hunused]
      simp [Compiler.createImport]
    · simp [Compiler.createImport, hi]
  · have hi := himports.lt_importsUsed hbody
    simp [Compiler.createImport, Nat.ne_of_lt hi]

namespace Sound

/-- The import of a file that is about to be parsed. -/
structure Unparsed (c : Compiler) (name : String) (imp : ℕ) : Prop where
  body : (c.imports imp).body = none
  name : (c.imports imp).name = name
  pos : imp ≠ 0
  lt : imp < c.importsUsed

theorem importOf (h : Sound files initialFile c (task :: rest)) (htype : task.type = .lexFile) :
    Sound files initialFile (c.importOf task).2
      ({ task with imp := some (c.importOf task).1 } :: rest) ∧
    Unparsed (c.importOf task).2 task.name (c.importOf task).1 ∧
    ∀ other ∈ rest, other.imp ≠ none := by
  have hmem : task ∈ task :: rest := List.mem_cons_self ..
  cases himp : task.imp with
  | some imp =>
      have himport : c.importOf task = (imp, c) := by simp [Compiler.importOf, himp]
      have htask : { task with imp := some imp } = task := by rw [← himp]
      obtain ⟨hlt, hbody⟩ := h.queue.parsed task hmem imp himp
      have hpos : imp ≠ 0 := by
        rintro rfl
        exact h.imports.builtin (hbody.mpr htype)
      rw [himport, htask]
      refine ⟨h, ⟨hbody.mpr htype, h.queue.named task hmem htype imp himp, hpos, hlt⟩, ?_⟩
      intro other ht hnone
      have hone := (h.queue.first other (List.mem_cons_of_mem _ ht) hnone).2.2
      omega
  | none =>
      obtain ⟨-, -, hone⟩ := h.queue.first task hmem himp
      have himport : c.importOf task = (c.importsUsed, (c.createImport task.name).2) := by
        simp [Compiler.importOf, himp, Compiler.createImport]
      have hlate : ∀ other ∈ rest, other.imp ≠ none := by
        intro other ht hnone
        have hsingle := h.queue.single
        rw [List.map_cons, List.nodup_cons, himp, ← hnone] at hsingle
        exact hsingle.1 (List.mem_map_of_mem ht)
      have htask : ({ task with imp := some c.importsUsed } : Task) =
          { type := .lexFile, name := task.name, imp := some c.importsUsed } := by
        have hfresh := h.queue.untried task hmem htype
        obtain ⟨type, name, imp, noChange⟩ := task
        subst htype hfresh
        rfl
      rw [himport, htask]
      have hself : (c.createImport task.name).2.imports c.importsUsed = { name := task.name } := by
        simp [Compiler.createImport]
      refine ⟨⟨h.imports.createImport fun i hmap => ?_, h.structs.createImport h.imports _,
        (h.queue.tail himp).createImport hlate _⟩, ⟨by rw [hself], by rw [hself], ?_,
          Nat.lt_succ_self _⟩, hlate⟩
      · have hi := (h.imports.named _ i hmap).1
        omega
      · change c.importsUsed ≠ 0
        omega

/-- The file of the task is parsed. -/
theorem parsed (h : Sound files initialFile c (task :: rest)) (htype : task.type = .lexFile)
    (himp : task.imp = some imp) (hunparsed : Unparsed c task.name imp) :
    Sound files initialFile (c.parsed imp (files task.name))
      ({ task with type := .checkStructs } :: rest) := by
  have hmem : task ∈ task :: rest := List.mem_cons_self ..
  set file := files task.name with hfile
  have hwork : SameWork (c.setParsed imp file) (c.parsed imp file) := sameWork_parsed file
  have hstructures : (c.parsed imp file).ast.structures = (parseFile file c.ast).2.structures :=
    hwork.structures
  have hprocessed : (c.parsed imp file).processed = c.processed := hwork.processed
  have hreporter : (c.parsed imp file).reporter = c.reporter := hwork.reporter
  have hself : ((c.parsed imp file).imports imp).body = some (parseFile file c.ast).1 := by
    rw [parsed_imports_self]
  have hmarks := parseFile_marks file h.structs.unused
  refine ⟨h.imports.parsed file hunparsed.body hunparsed.lt, ?_, ?_⟩
  · have hstructs := h.structs.parsed hunparsed.body h.imports.builtin
    rwa [hunparsed.name] at hstructs
  · refine h.queue.replace himp (some { task with type := .checkStructs }) ?_
      hwork.importsUsed ?_ ?_ (by simp [hself]) ?_ ?_
    · intro queued hqueued
      obtain rfl := Option.mem_some.mp hqueued
      refine ⟨himp, by simp [hself], by simp, fun htried => ?_⟩
      rw [h.queue.untried task hmem htype] at htried
      cases htried
    · intro i
      by_cases hi : i = imp
      · rw [hi, parsed_imports_self]
      · rw [parsed_imports_of_ne file hi]
    · intro s hcreated
      rw [hstructures, (hmarks s).2.1]
      exact hcreated
    · intro j hj
      refine ⟨by rw [parsed_imports_of_ne file hj], fun _ _ s _ => ?_, by rw [hreporter],
        by rw [hprocessed], by rw [hprocessed]; exact id⟩
      rw [hstructures, (hmarks s).1]
    · have hunchecked : (.checkFunctions, imp) ∉ c.processed := by
        have hstage := h.queue.stageAt himp
        rwa [htype] at hstage
      refine .checkingStructs ⟨_, List.mem_cons_self .., rfl, himp⟩ (fun body hbody => ?_)
        (by rwa [hprocessed])
      rw [hself] at hbody
      obtain rfl := Option.some.inj hbody
      -- the first structure of the file is new
      cases hlist : file.structures with
      | nil => exact Or.inl (by simp [parseFile_body_structures, hlist])
      | cons first others =>
          refine Or.inr ⟨c.ast.structuresUsed, by simp [parseFile_body_structures, hlist], ?_⟩
          rw [hstructures, (hmarks _).1, h.structs.unused _ (Nat.le_refl _)]

/-- The tasks and the imports that a dependency adds. -/
structure Registered (c c' : Compiler) (imp : ℕ) (new : List Task) : Prop where
  tasks : c'.tasks = c.tasks ++ new
  processed : c'.processed = c.processed
  reporter : c'.reporter = c.reporter
  importsUsed : c.importsUsed ≤ c'.importsUsed
  imports : ∀ i < c.importsUsed, (c'.imports i).body = (c.imports i).body ∧
    (c'.imports i).name = (c.imports i).name ∧
    (c'.imports i).dependencies = (c.imports i).dependencies
  mapped : ∀ name i, c.importMap name = some i → c'.importMap name = some i
  structures : c'.ast.structures = c.ast.structures

theorem Registered.refl (c : Compiler) (imp : ℕ) : Registered c c imp [] :=
  ⟨by simp, rfl, rfl, Nat.le_refl _, fun _ _ => ⟨rfl, rfl, rfl⟩, fun _ _ => id, rfl⟩

theorem Registered.trans {c'' : Compiler} {new new' : List Task} (h : Registered c c' imp new)
    (h' : Registered c' c'' imp new') : Registered c c'' imp (new ++ new') where
  tasks := by rw [h'.tasks, h.tasks, List.append_assoc]
  processed := h'.processed.trans h.processed
  reporter := h'.reporter.trans h.reporter
  importsUsed := Nat.le_trans h.importsUsed h'.importsUsed
  imports i hi := by
    obtain ⟨hbody, hname, hdependencies⟩ := h'.imports i (Nat.lt_of_lt_of_le hi h.importsUsed)
    obtain ⟨hbody', hname', hdependencies'⟩ := h.imports i hi
    exact ⟨hbody.trans hbody', hname.trans hname', hdependencies.trans hdependencies'⟩
  mapped name i hmap := h'.mapped name i (h.mapped name i hmap)
  structures := h'.structures.trans h.structures

/-- What `QueueSound` says is about fields that waiting and sharing leave. -/
theorem queue_sameWork (h : QueueSound initialFile c live) (hwork : SameWork c c')
    (hbody : ∀ i, (c'.imports i).body = (c.imports i).body)
    (hname : ∀ i, (c'.imports i).name = (c.imports i).name) : QueueSound initialFile c' live :=
  h.congr hwork.importsUsed hname (by simp [hwork.structures]) fun i =>
    ⟨hbody i, fun _ _ _ _ => by rw [hwork.structures], by rw [hwork.reporter],
      by rw [hwork.processed], by rw [hwork.processed]; exact id⟩

/-- One dependency of the parsed import `imp`: a file that is not known yet gets a task. -/
theorem registerDependency (h : Sound files initialFile c live)
    (hlate : ∀ task ∈ live, task.imp ≠ none) (himp : (c.imports imp).body ≠ none) (path : String) :
    ∃ new, Registered c (registerDependency imp c path) imp new ∧
      Sound files initialFile (Compiler.registerDependency imp c path) (live ++ new) ∧
      (∀ task ∈ new, task.imp ≠ none) ∧
      (Compiler.registerDependency imp c path).importMap path ≠ none ∧
      ((new = [] ∧ (Compiler.registerDependency imp c path).importMap = c.importMap) ∨
        (c.importMap path = none ∧ new = [{ type := .lexFile, name := path, imp := some c.importsUsed }] ∧
          (Compiler.registerDependency imp c path).importMap =
            Function.update c.importMap path (some c.importsUsed))) := by
  have hlt := h.imports.lt_importsUsed himp
  have himports := h.imports.registerDependency path himp
  unfold Compiler.registerDependency at himports ⊢
  cases hmap : c.importMap path with
  | none =>
      simp only [hmap] at himports ⊢
      set created := (c.createImport path).2 with hcreated
      have hne : imp ≠ c.importsUsed := Nat.ne_of_lt hlt
      have hwork := @sameWork_waitFor created imp c.importsUsed
      have hwait := fun i => waitFor_imports (c := created) hne i
      have hold : ∀ i < c.importsUsed, created.imports i = c.imports i := fun i hi => by
        simp [hcreated, Compiler.createImport, Nat.ne_of_lt hi]
      refine ⟨[{ type := .lexFile, name := path, imp := some c.importsUsed }], ?_, ?_, by simp, ?_,
        Or.inr ⟨trivial, rfl, rfl⟩⟩
      · refine ⟨rfl, rfl, rfl, Nat.le_succ _, fun i hi => ?_, fun name i hname => ?_, rfl⟩
        · change ((created.waitFor imp c.importsUsed).imports i).body = _ ∧
            ((created.waitFor imp c.importsUsed).imports i).name = _ ∧
            ((created.waitFor imp c.importsUsed).imports i).dependencies = _
          rw [hwait, hold i hi]
          exact ⟨rfl, rfl, rfl⟩
        · have hother : name ≠ path := fun heq => by rw [heq, hmap] at hname; cases hname
          exact (Function.update_of_ne hother ..).trans hname
      · have hstructs : StructsSound files (created.waitFor imp c.importsUsed) :=
          (h.structs.createImport h.imports path).sameWork hwork (fun i => by rw [hwait])
            fun i => by rw [hwait]
        have hqueue : QueueSound initialFile (created.waitFor imp c.importsUsed)
            ({ type := .lexFile, name := path, imp := some c.importsUsed } :: live) :=
          queue_sameWork (h.queue.createImport hlate path) hwork (fun i => by rw [hwait])
            fun i => by rw [hwait]
        have himports : ImportsSound (created.waitFor imp c.importsUsed) :=
          himports.congr rfl rfl rfl
        exact ((Sound.mk himports hstructs hqueue).setTasks _).perm
          (List.perm_append_singleton _ _).symm
      · exact fun hnone => by
          have hself : (c.createImport path).2.importMap path = some c.importsUsed :=
            Function.update_self ..
          cases hself.symm.trans hnone
  | some dep =>
      have hsame : ∀ {c'}, SameWork c c' → (∀ i, (c'.imports i).body = (c.imports i).body ∧
          (c'.imports i).name = (c.imports i).name ∧
          (c'.imports i).dependencies = (c.imports i).dependencies) → ImportsSound c' →
          ∃ new, Registered c c' imp new ∧ Sound files initialFile c' (live ++ new) ∧
            (∀ task ∈ new, task.imp ≠ none) ∧ c'.importMap path ≠ none ∧
            ((new = [] ∧ c'.importMap = c.importMap) ∨ (some dep = none ∧
              new = [{ type := .lexFile, name := path, imp := some c.importsUsed }] ∧
              c'.importMap = Function.update c.importMap path (some c.importsUsed))) := by
        intro c' hwork hfields himports
        refine ⟨[], ⟨by simp [hwork.tasks], hwork.processed, hwork.reporter,
          Nat.le_of_eq hwork.importsUsed.symm, fun i _ => hfields i, fun name i hname => ?_,
          hwork.structures⟩, ?_, by simp, by simp [hwork.importMap, hmap],
          Or.inl ⟨rfl, hwork.importMap⟩⟩
        · rw [hwork.importMap]
          exact hname
        · rw [List.append_nil]
          exact ⟨himports, h.structs.sameWork hwork (fun i => (hfields i).1)
            (fun i => (hfields i).2.1), queue_sameWork h.queue hwork (fun i => (hfields i).1)
            fun i => (hfields i).2.1⟩
      simp only [hmap] at himports ⊢
      cases hbody : (c.imports dep).body with
      | some body =>
          simp only [hbody] at himports ⊢
          exact hsame (sameWork_shareImport _) (by simp) himports
      | none =>
          simp only [hbody] at himports ⊢
          have hne : imp ≠ dep := fun heq => himp (heq ▸ hbody)
          exact hsame sameWork_waitFor (fun i => by
            rw [waitFor_imports hne]
            exact ⟨rfl, rfl, rfl⟩) himports

end Sound

/-! ### The loop over the dependencies -/

/-- The paths that have no import yet. -/
def unknown (paths : Finset String) (c : Compiler) : ℕ :=
  (paths.filter fun path => c.importMap path = none).card

theorem unknown_update {paths : Finset String} {path : String} (hpath : path ∈ paths)
    (hnone : c.importMap path = none)
    (hmap : c'.importMap = Function.update c.importMap path (some i)) :
    unknown paths c' + 1 = unknown paths c := by
  have herase : (paths.filter fun path => c'.importMap path = none) =
      (paths.filter fun path => c.importMap path = none).erase path := by
    ext other
    simp only [hmap, Finset.mem_filter, Finset.mem_erase]
    by_cases heq : other = path
    · simp [heq]
    · simp [heq]
  unfold unknown
  rw [herase]
  exact Finset.card_erase_add_one (Finset.mem_filter.mpr ⟨hpath, hnone⟩)

theorem unknown_le {paths : Finset String}
    (hmap : ∀ path, c'.importMap path = none → c.importMap path = none) :
    unknown paths c' ≤ unknown paths c :=
  Finset.card_le_card (Finset.monotone_filter_right paths fun path _ => hmap path)

/-- The tasks that a list of dependencies adds. -/
structure Discovered (c c' : Compiler) (names : List String) (new : List Task) : Prop where
  types : ∀ task ∈ new, task.type = .lexFile ∧ task.name ∈ names ∧ task.imp ≠ none
  mapped : ∀ path ∈ names, c'.importMap path ≠ none
  unknown : ∀ paths : Finset String, (∀ path ∈ names, path ∈ paths) →
    Compiler.unknown paths c' + new.length ≤ Compiler.unknown paths c

theorem Sound.registerDependencies (names : List String) : ∀ {c : Compiler} {live : List Task},
    Sound files initialFile c live → (∀ task ∈ live, task.imp ≠ none) →
    (c.imports imp).body ≠ none →
    ∃ new, Sound.Registered c (names.foldl (Compiler.registerDependency imp) c) imp new ∧
      Sound files initialFile (names.foldl (Compiler.registerDependency imp) c) (live ++ new) ∧
      Discovered c (names.foldl (Compiler.registerDependency imp) c) names new := by
  induction names with
  | nil =>
      intro c live h _ _
      exact ⟨[], .refl c imp, by simpa using h, by simp, by simp, by simp⟩
  | cons path names ih =>
      intro c live h hlate himp
      obtain ⟨first, hregistered, hsound, hfirst, hmapped, hcase⟩ :=
        h.registerDependency hlate himp path
      have hlt := h.imports.lt_importsUsed himp
      obtain ⟨others, hrest, hsound', hdiscovered⟩ := ih hsound
        (fun task ht => (List.mem_append.mp ht).elim (hlate task) (hfirst task))
        (by rwa [(hregistered.imports imp hlt).1])
      refine ⟨first ++ others, hregistered.trans hrest, ?_, ?_, ?_, ?_⟩
      · rwa [← List.append_assoc]
      · intro task ht
        rcases List.mem_append.mp ht with ht | ht
        · rcases hcase with ⟨rfl, -⟩ | ⟨-, rfl, -⟩
          · simp at ht
          · obtain rfl := List.mem_singleton.mp ht
            exact ⟨rfl, List.mem_cons_self .., by simp⟩
        · obtain ⟨htype, hname, himp⟩ := hdiscovered.types task ht
          exact ⟨htype, List.mem_cons_of_mem _ hname, himp⟩
      · intro other hother
        rcases List.mem_cons.mp hother with rfl | hother
        · obtain ⟨dep, hdep⟩ := Option.ne_none_iff_exists'.mp hmapped
          rw [List.foldl_cons, hrest.mapped _ dep hdep]
          simp
        · exact hdiscovered.mapped other hother
      · intro paths hpaths
        have hothers := hdiscovered.unknown paths fun other hother =>
          hpaths other (List.mem_cons_of_mem _ hother)
        rw [List.foldl_cons, List.length_append]
        rcases hcase with ⟨rfl, hmap⟩ | ⟨hnone, rfl, hmap⟩
        · have hsame : unknown paths (Compiler.registerDependency imp c path) = unknown paths c := by
            simp only [unknown, hmap]
          simp only [List.length_nil, Nat.zero_add]
          omega
        · have hless := unknown_update (hpaths path (List.mem_cons_self ..)) hnone hmap
          simp only [List.length_singleton]
          omega

theorem mem_foldl_addDependency {path : String} (names : List String) : ∀ dependencies,
    path ∈ names.foldl addDependency dependencies ↔ path ∈ dependencies ∨ path ∈ names := by
  induction names with
  | nil => simp
  | cons name names ih =>
      intro dependencies
      rw [List.foldl_cons, ih, addDependency]
      split
      · next hmem =>
          rw [List.mem_cons]
          constructor
          · exact Or.imp_right Or.inr
          · rintro (hold | rfl | hnew)
            · exact Or.inl hold
            · exact Or.inl hmem
            · exact Or.inr hnew
      · simp [or_assoc]

theorem importOf_fields (task : Task) (c : Compiler) :
    (c.importOf task).2.tasks = c.tasks ∧ (c.importOf task).2.processed = c.processed ∧
    (c.importOf task).2.reporter = c.reporter ∧
    ∀ path, (c.importOf task).2.importMap path = none → c.importMap path = none := by
  unfold importOf
  cases task.imp with
  | some imp => exact ⟨rfl, rfl, rfl, fun _ => id⟩
  | none =>
      refine ⟨rfl, rfl, rfl, fun path hnone => ?_⟩
      by_cases heq : path = task.name
      · subst heq
        simp [createImport] at hnone
      · simpa [createImport, heq] using hnone

/-- `TASK_LEX_FILE` -/
theorem Sound.lexFile (h : Sound files initialFile c (task :: c.tasks))
    (htype : task.type = .lexFile) :
    ∃ imp new, (c.lexFileTask files task).1 = some { task with type := .checkStructs, imp := some imp } ∧
      (c.lexFileTask files task).2.tasks = c.tasks ++ new ∧
      (c.lexFileTask files task).2.processed = c.processed ++ [(.lexFile, imp)] ∧
      (c.lexFileTask files task).2.reporter = c.reporter ∧
      Sound files initialFile (c.lexFileTask files task).2
        ({ task with type := .checkStructs, imp := some imp } :: (c.tasks ++ new)) ∧
      Discovered c (c.lexFileTask files task).2 (files task.name).imports new := by
  obtain ⟨hsound, hunparsed, hlate⟩ := h.importOf htype
  obtain ⟨htasks, hprocessed, hreporter, hmap⟩ := importOf_fields task c
  set imp := (c.importOf task).1
  have hparsed := hsound.parsed htype rfl hunparsed
  set c₁ := (c.importOf task).2.parsed imp (files task.name) with hc₁
  have hself : (c₁.imports imp).body ≠ none := by
    rw [hc₁, parsed_imports_self]
    simp
  have hdependencies : ∀ path, path ∈ (c₁.imports imp).dependencies ↔
      path ∈ (files task.name).imports := by
    intro path
    rw [hc₁, parsed_imports_self, mem_foldl_addDependency,
      (hsound.imports.blank imp hunparsed.body).2.2]
    simp
  have hwork : SameWork ((c.importOf task).2.setParsed imp (files task.name)) c₁ :=
    sameWork_parsed (files task.name)
  obtain ⟨new, hregistered, hsound', hdiscovered⟩ :=
    hparsed.registerDependencies (c₁.imports imp).dependencies (by
      intro other ht
      rcases List.mem_cons.mp ht with rfl | ht
      · simp
      · exact hlate other ht) hself
  refine ⟨imp, new, rfl, ?_, ?_, ?_, ?_, ?_, ?_, ?_⟩
  · rw [lexFileTask_eq]
    exact hregistered.tasks.trans (congrArg (· ++ new) (hwork.tasks.trans htasks))
  · rw [lexFileTask_eq]
    refine congrArg (· ++ [(TaskType.lexFile, imp)]) ?_
    exact hregistered.processed.trans (hwork.processed.trans hprocessed)
  · rw [lexFileTask_eq]
    exact hregistered.reporter.trans (hwork.reporter.trans hreporter)
  · rw [lexFileTask_eq]
    exact hsound'.congr rfl rfl rfl rfl rfl fun i =>
      ⟨List.mem_append.trans (or_iff_left (by simp)), fun hmem => List.mem_append_left _ hmem⟩
  · intro other ht
    obtain ⟨htype, hname, himp⟩ := hdiscovered.types other ht
    exact ⟨htype, (hdependencies _).mp hname, himp⟩
  · intro path hpath
    exact hdiscovered.mapped path ((hdependencies path).mpr hpath)
  · intro paths hpaths
    have hnew := hdiscovered.unknown paths fun path hpath =>
      hpaths path ((hdependencies path).mp hpath)
    have hold : unknown paths c₁ ≤ unknown paths c :=
      unknown_le fun path hnone => hmap path (by rw [← hnone, hwork.importMap]; rfl)
    exact Nat.le_trans hnew hold

/-! ## The other tasks keep the invariant -/

section Others

variable {body : FileBody}

theorem mem_snoc_processed {list : List (TaskType × ℕ)} {type type' : TaskType} {i j : ℕ}
    (hne : type ≠ type' ∨ i ≠ j) : (type, i) ∈ list ++ [(type', j)] ↔ (type, i) ∈ list := by
  refine List.mem_append.trans (or_iff_left fun hmem => ?_)
  obtain ⟨htype, hi⟩ := Prod.mk.inj (List.mem_singleton.mp hmem)
  exact hne.elim (absurd htype) (absurd hi)

/-- Attempts on the structures of one import do not touch those of another. -/
theorem StructsSound.sameStage (h : StructsSound files c) (hbody : (c.imports i).body = some body)
    {j : ℕ} (hj : j ≠ i) (himports : c'.imports = c.imports)
    (hast : c'.ast = TinCompiler.attempts body.scopeId c.ast body.structures)
    (herrors : c.reporter.errors ≤ c'.reporter.errors)
    (hprocessed : c'.processed = c.processed ++ [(.checkStructs, i)]) : SameStage c c' j := by
  refine ⟨by rw [himports], fun other hother s hs => ?_, herrors, ?_, ?_⟩
  · rw [hast, attempts_structures_of_not_mem (h.disjoint j i other body hj hother hbody s hs)]
  · rw [hprocessed, mem_snoc_processed (Or.inl (by simp))]
  · rw [hprocessed]
    exact fun hmem => List.mem_append_left _ hmem

/-- A pass over the structures of the import, with the task that is left. -/
theorem Sound.structPass (h : Sound files initialFile c (task :: rest)) (himp : task.imp = some i)
    (hbody : (c.imports i).body = some body) (queued : Option Task)
    (himports : c'.imports = c.imports) (hused : c'.importsUsed = c.importsUsed)
    (hmap : c'.importMap = c.importMap)
    (hast : c'.ast = TinCompiler.attempts body.scopeId c.ast body.structures)
    (herrors : c.reporter.errors ≤ c'.reporter.errors)
    (hprocessed : c'.processed = c.processed ++ [(.checkStructs, i)])
    (hqueued : ∀ task' ∈ queued, task'.imp = task.imp ∧ task'.type ≠ .lexFile)
    (hself : Stage c' (queued.toList ++ rest) i) :
    Sound files initialFile c' (queued.toList ++ rest) := by
  have hcreated : ∀ s, s ∈ body.structures ∨ (c.ast.structures s).createdType = true →
      (c'.ast.structures s).createdType = true := by
    intro s hs
    rw [hast]
    exact created_attempts h.structs.table hs
  refine ⟨h.imports.congr himports hused hmap, h.structs.attempts hbody himports hast,
    h.queue.replace himp queued (fun task' ht => ?_) hused (by simp [himports])
      (fun s hs => hcreated s (Or.inr hs)) (by simp [himports, hbody])
      (fun j hj => h.structs.sameStage hbody hj himports hast herrors hprocessed) hself⟩
  obtain ⟨hsame, hlex⟩ := hqueued task' ht
  refine ⟨hsame.trans himp, by simp [himports, hbody, hlex], hlex, fun _ other hother s hs => ?_⟩
  rw [himports, hbody] at hother
  obtain rfl := Option.some.inj hother
  exact hcreated s (Or.inl hs)

/-- `TASK_CHECK_STRUCTS` -/
theorem Sound.checkStructs (h : Sound files initialFile c (task :: rest))
    (htype : task.type = .checkStructs) (himp : task.imp = some i)
    (hbody : (c.imports i).body = some body) :
    Sound files initialFile (c.checkStructsTask task i body).2
        ((c.checkStructsTask task i body).1.toList ++ rest) := by
  have hunchecked : (.checkFunctions, i) ∉ c.processed := by
    have hstage := h.queue.stageAt himp
    rw [htype] at hstage
    exact hstage.2
  have hunchecked' : (.checkFunctions, i) ∉ c.processed ++ [(.checkStructs, i)] := by
    rwa [mem_snoc_processed (Or.inl (by simp))]
  have hnodup := h.structs.nodup i body hbody
  have htable := h.structs.table
  have hidle : ∀ type, ¬ Queued ((none : Option Task).toList ++ rest) type i :=
    fun type => h.queue.not_queued himp
  have hpass := checkStructs_ast c.ast c.reporter body true
  have hquiet : (TinCompiler.checkStructs c.ast c.reporter body true).reporter = c.reporter :=
    foldl_visit_reporter _ _
  unfold checkStructsTask
  dsimp only
  cases hfailure : (TinCompiler.checkStructs c.ast c.reporter body true).failure with
  | false =>
      simp only [Bool.false_eq_true, if_false]
      refine h.structPass himp hbody (some { task with type := .checkFunctions })
        ?_ ?_ ?_ ?_ ?_ ?_ ?_ ?_
      · rfl
      · rfl
      · rfl
      · exact hpass
      · exact Nat.le_of_eq (by rw [hquiet])
      · rfl
      · intro task' ht
        obtain rfl := Option.mem_some.mp ht
        exact ⟨rfl, by simp⟩
      · refine .checkingFunctions ⟨_, List.mem_cons_self .., rfl, himp⟩ (fun other hother s hs => ?_)
          hunchecked'
        obtain rfl := Option.some.inj (hbody.symm.trans hother)
        change ((TinCompiler.checkStructs c.ast c.reporter body true).ast.structures s).complete = true
        rw [hpass]
        exact complete_of_success { ast := c.ast, reporter := c.reporter } htable hfailure
          s hs
  | true =>
      have hpending : ∃ s ∈ body.structures,
          ((TinCompiler.checkStructs c.ast c.reporter body true).ast.structures s).complete =
            false := by
        rw [hpass]
        exact (incomplete_of_failure hnodup hfailure).resolve_left (by simp)
      simp only [if_true]
      split
      · next hrepeat =>
          simp only [Bool.and_eq_true, Bool.not_eq_eq_eq_not, Bool.not_true] at hrepeat
          obtain ⟨hchanged, htried⟩ := hrepeat
          have hcreated := h.queue.tried task (List.mem_cons_self ..) htried i body himp hbody
          have hagain := failure_of_repeat htable hnodup hcreated hfailure hchanged
            (TinCompiler.checkStructs c.ast c.reporter body true).reporter
          have hmore := ((errors_of_failure _ _).2 hagain).resolve_left (by simp)
          have hlast := checkStructs_ast
            (TinCompiler.checkStructs c.ast c.reporter body true).ast
            (TinCompiler.checkStructs c.ast c.reporter body true).reporter body false
          have herrors :=
            calc c.reporter.errors
                = (TinCompiler.checkStructs c.ast c.reporter body true).reporter.errors := by rw [hquiet]
              _ < (TinCompiler.checkStructs
                    (TinCompiler.checkStructs c.ast c.reporter body true).ast
                    (TinCompiler.checkStructs c.ast c.reporter body true).reporter body
                      false).reporter.errors := hmore
          have hmiddle : Sound files initialFile { c with
              ast := (TinCompiler.checkStructs c.ast c.reporter body true).ast
              processed := c.processed ++ [(.checkStructs, i)] } (task :: rest) := by
            refine h.structPass himp hbody (some task) ?_ ?_ ?_ ?_ ?_ ?_ ?_ ?_
            · rfl
            · rfl
            · rfl
            · exact hpass
            · exact Nat.le_refl _
            · rfl
            · intro task' ht
              obtain rfl := Option.mem_some.mp ht
              exact ⟨rfl, by simp [htype]⟩
            · refine .checkingStructs ⟨_, List.mem_cons_self .., htype, himp⟩
                (fun other hother => ?_) hunchecked'
              obtain rfl := Option.some.inj (hbody.symm.trans hother)
              exact Or.inr hpending
          have hshown : Sound files initialFile { c with
              ast := (TinCompiler.checkStructs
                (TinCompiler.checkStructs c.ast c.reporter body true).ast
                (TinCompiler.checkStructs c.ast c.reporter body true).reporter body false).ast
              reporter := (TinCompiler.checkStructs
                (TinCompiler.checkStructs c.ast c.reporter body true).ast
                (TinCompiler.checkStructs c.ast c.reporter body true).reporter body false).reporter
              processed := (c.processed ++ [(.checkStructs, i)]) ++ [(.checkStructs, i)] }
              ((none : Option Task).toList ++ rest) := by
            refine hmiddle.structPass himp hbody none ?_ ?_ ?_ ?_ ?_ ?_ ?_ ?_
            · rfl
            · rfl
            · rfl
            · exact hlast
            · exact Nat.le_of_lt herrors
            · rfl
            · simp
            · refine .structsFailed hidle (Nat.ne_of_gt (Nat.lt_of_le_of_lt (Nat.zero_le _) herrors))
                ⟨body, hbody, ?_⟩ ?_
              · have hleft := (incomplete_of_failure hnodup hagain).resolve_left (by simp)
                rwa [← hlast] at hleft
              · rwa [mem_snoc_processed (Or.inl (by simp))]
          refine hshown.congr rfl rfl rfl rfl rfl fun j => ⟨?_, fun hmem => ?_⟩
          · exact (mem_snoc_processed (Or.inl (by simp))).symm
          · exact (mem_snoc_processed (Or.inl (by simp))).mp hmem
      · refine h.structPass himp hbody (some { task with
            noChange := !(TinCompiler.checkStructs c.ast c.reporter body true).changed })
            ?_ ?_ ?_ ?_ ?_ ?_ ?_ ?_
        · rfl
        · rfl
        · rfl
        · exact hpass
        · exact Nat.le_of_eq (by rw [hquiet])
        · rfl
        · intro task' ht
          obtain rfl := Option.mem_some.mp ht
          exact ⟨rfl, by simp [htype]⟩
        · refine .checkingStructs ⟨_, List.mem_cons_self .., htype, himp⟩
            (fun other hother => ?_) hunchecked'
          obtain rfl := Option.some.inj (hbody.symm.trans hother)
          exact Or.inr hpending

/-! ### Functions -/

theorem kept_foldl {α : Type} {f : AST × Reporter → α → AST × Reporter}
    (hf : ∀ tables a, Kept tables.1 tables.2 (f tables a).1 (f tables a).2) (list : List α) :
    ∀ tables : AST × Reporter,
      Kept tables.1 tables.2 (list.foldl f tables).1 (list.foldl f tables).2 := by
  induction list with
  | nil => exact fun tables => .refl _ _
  | cons a list ih => exact fun tables => (hf tables a).trans (ih _)

theorem kept_generateFunctions (list : List ℕ) : ∀ tables : AST × Bytecode × Reporter,
    Kept tables.1 tables.2.2
      (list.foldl (fun tables f => generateFunction tables.1 f tables.2.1 tables.2.2) tables).1
      (list.foldl (fun tables f => generateFunction tables.1 f tables.2.1 tables.2.2)
        tables).2.2 := by
  induction list with
  | nil => exact fun tables => .refl _ _
  | cons f list ih =>
      exact fun tables => (kept_generateFunction tables.1 f tables.2.1 tables.2.2).trans (ih _)

/-- What `TASK_CHECK_FUNCTIONS` leaves of the tables. -/
theorem kept_checkFunctionsTask (task : Task) (i : ℕ) (body : FileBody) (c : Compiler) :
    Kept c.ast c.reporter (c.checkFunctionsTask task i body).2.ast
      (c.checkFunctionsTask task i body).2.reporter ∧
    ((c.checkFunctionsTask task i body).1 = some { task with type := .genFunctions } ∨
      (c.checkFunctionsTask task i body).1 = none ∧
        (c.checkFunctionsTask task i body).2.reporter.errors ≠ 0) := by
  have hchecked := kept_foldl (f := fun tables f => checkFunction tables.1 tables.2 body.scopeId f)
    (fun tables f => kept_checkFunction tables.1 tables.2 body.scopeId f) body.functions
    (c.ast, c.reporter)
  have hglobals := kept_checkGlobals body.scopeId body.statements
    (body.functions.foldl (fun tables f => checkFunction tables.1 tables.2 body.scopeId f)
      (c.ast, c.reporter)).1 c.bytecode
    (body.functions.foldl (fun tables f => checkFunction tables.1 tables.2 body.scopeId f)
      (c.ast, c.reporter)).2
  refine ⟨hchecked.trans hglobals, ?_⟩
  unfold checkFunctionsTask
  dsimp only
  split
  · exact Or.inl rfl
  · next herrors =>
      refine Or.inr ⟨rfl, fun hzero => herrors ?_⟩
      exact Nat.eq_zero_of_le_zero (Nat.le_trans hglobals.errors (Nat.le_of_eq hzero))

/-- A task over the functions of the import, with the task that is left. -/
theorem Sound.functions (h : Sound files initialFile c (task :: rest)) (himp : task.imp = some i)
    (hbody : (c.imports i).body = some body) (queued : Option Task)
    (himports : c'.imports = c.imports) (hused : c'.importsUsed = c.importsUsed)
    (hmap : c'.importMap = c.importMap)
    (hkept : Kept c.ast c.reporter c'.ast c'.reporter) {type : TaskType}
    (hprocessed : c'.processed = c.processed ++ [(type, i)])
    (hqueued : ∀ task' ∈ queued, task'.imp = task.imp ∧ task'.type ≠ .lexFile ∧
      task'.noChange = task.noChange)
    (hself : Stage c' (queued.toList ++ rest) i) :
    Sound files initialFile c' (queued.toList ++ rest) := by
  refine ⟨h.imports.congr himports hused hmap, h.structs.congr (by simp [himports])
    (by simp [himports]) hkept.types.typesUsed hkept.types.typeInfos hkept.types.structuresUsed
      hkept.types.structures, h.queue.replace himp queued (fun task' ht => ?_) hused (by simp [himports])
        (by simp [hkept.types.structures]) (by simp [himports, hbody]) (fun j hj => ?_) hself⟩
  · obtain ⟨hsame, hlex, hnoChange⟩ := hqueued task' ht
    refine ⟨hsame.trans himp, by simp [himports, hlex, hbody], hlex, fun htried other hother => ?_⟩
    rw [himports] at hother
    rw [hkept.types.structures]
    exact h.queue.tried task (List.mem_cons_self ..) (hnoChange ▸ htried) i other himp hother
  · refine ⟨by rw [himports], fun _ _ _ _ => by rw [hkept.types.structures], hkept.errors, ?_, ?_⟩
    · rw [hprocessed, mem_snoc_processed (Or.inr hj)]
    · rw [hprocessed]
      exact fun hmem => List.mem_append_left _ hmem

/-- `TASK_CHECK_FUNCTIONS` -/
theorem Sound.checkFunctions (h : Sound files initialFile c (task :: rest))
    (htype : task.type = .checkFunctions) (himp : task.imp = some i)
    (hbody : (c.imports i).body = some body) :
    Sound files initialFile (c.checkFunctionsTask task i body).2
      ((c.checkFunctionsTask task i body).1.toList ++ rest) := by
  obtain ⟨hkept, hqueued⟩ := kept_checkFunctionsTask task i body c
  have hfinished : Finished c i := by
    have hstage := h.queue.stageAt himp
    rw [htype] at hstage
    exact hstage.1
  have hfinished' : Finished (c.checkFunctionsTask task i body).2 i := by
    intro other hother s hs
    rw [hkept.types.structures]
    exact hfinished other hother s hs
  have hchecked : (.checkFunctions, i) ∈ (c.checkFunctionsTask task i body).2.processed :=
    List.mem_append_right _ (List.mem_singleton_self _)
  refine h.functions himp hbody _ rfl rfl rfl hkept rfl (fun task' ht => ?_) ?_
  · rcases hqueued with heq | ⟨heq, -⟩
    · rw [heq] at ht
      obtain rfl := Option.mem_some.mp ht
      exact ⟨rfl, by simp, rfl⟩
    · rw [heq] at ht
      cases ht
  · rcases hqueued with heq | ⟨heq, herrors⟩
    · rw [heq]
      exact .generating ⟨_, List.mem_cons_self .., rfl, himp⟩ hfinished' hchecked
    · rw [heq]
      exact .functionsFailed (fun type => h.queue.not_queued himp) herrors hfinished' hchecked

/-- `TASK_GEN_FUNCTIONS` -/
theorem Sound.genFunctions (h : Sound files initialFile c (task :: rest))
    (htype : task.type = .genFunctions) (himp : task.imp = some i)
    (hbody : (c.imports i).body = some body) :
    Sound files initialFile (c.genFunctionsTask i body).2
      ((c.genFunctionsTask i body).1.toList ++ rest) := by
  have hkept := kept_generateFunctions body.functions (c.ast, c.bytecode, c.reporter)
  obtain ⟨hfinished, hchecked⟩ : Finished c i ∧ (.checkFunctions, i) ∈ c.processed := by
    have hstage := h.queue.stageAt himp
    rwa [htype] at hstage
  have hkept : Kept c.ast c.reporter (c.genFunctionsTask i body).2.ast
    (c.genFunctionsTask i body).2.reporter := hkept
  refine h.functions himp hbody none rfl rfl rfl hkept rfl (by simp) ?_
  refine .done (fun type => h.queue.not_queued himp) (fun other hother s hs => ?_) ?_ ?_
  · rw [hkept.types.structures]
    exact hfinished other hother s hs
  · exact List.mem_append_left _ hchecked
  · exact List.mem_append_right _ (List.mem_singleton_self _)

end Others

/-! ## Every run -/

/-- A task other than the first is for a parsed import. -/
theorem Sound.body_of_task (h : Sound files initialFile c (task :: rest))
    (htype : task.type ≠ .lexFile) :
    ∃ i body, task.imp = some i ∧ (c.imports i).body = some body := by
  have hmem : task ∈ task :: rest := List.mem_cons_self ..
  cases himp : task.imp with
  | none => exact absurd (h.queue.first task hmem himp).1 htype
  | some i =>
      obtain ⟨-, hbody⟩ := h.queue.parsed task hmem i himp
      obtain ⟨body, hbody⟩ := Option.ne_none_iff_exists'.mp (mt hbody.mp htype)
      exact ⟨i, body, rfl, hbody⟩

/-- The task that one round takes out, and what the round leaves. -/
theorem step_cases (hstep : c.step files = some c') :
    ∃ task rest, takeFirst c.ready c.tasks = some (task, rest) ∧ c.tasks.Perm (task :: rest) ∧
      c' = { ({ c with tasks := rest }.process files task).2 with
        tasks := ({ c with tasks := rest }.process files task).2.tasks ++
          ({ c with tasks := rest }.process files task).1.toList } := by
  unfold step at hstep
  obtain ⟨⟨task, rest⟩, htaken, heq⟩ := Option.map_eq_some_iff.mp hstep
  exact ⟨task, rest, htaken, perm_of_takeFirst htaken, heq.symm⟩

theorem process_lexFile (htype : task.type = .lexFile) :
    c.process files task = c.lexFileTask files task := by
  obtain ⟨type, name, imp, noChange⟩ := task
  subst htype
  unfold process
  simp only

theorem process_of_body (files : String → SourceFile) {body : FileBody} (himp : task.imp = some i)
    (hbody : (c.imports i).body = some body) :
    (task.type = .checkStructs → c.process files task = c.checkStructsTask task i body) ∧
    (task.type = .checkFunctions → c.process files task = c.checkFunctionsTask task i body) ∧
    (task.type = .genFunctions → c.process files task = c.genFunctionsTask i body) := by
  obtain ⟨type, name, imp, noChange⟩ := task
  subst himp
  refine ⟨fun htype => ?_, fun htype => ?_, fun htype => ?_⟩ <;>
    · subst htype
      simp [process, hbody]

/-- The queue behind a task. -/
theorem Sound.process (h : Sound files initialFile c (task :: c.tasks)) :
    Sound files initialFile (c.process files task).2
      ((c.process files task).2.tasks ++ (c.process files task).1.toList) := by
  by_cases htype : task.type = .lexFile
  · obtain ⟨imp, new, hqueued, htasks, -, -, hsound, -⟩ := h.lexFile htype
    rw [process_lexFile htype, hqueued, htasks]
    exact hsound.perm (List.perm_append_singleton _ _).symm
  · obtain ⟨i, body, himp, hbody⟩ := h.body_of_task htype
    obtain ⟨hstructs, hfunctions, hgen⟩ := process_of_body files himp hbody
    cases hcase : task.type with
    | lexFile => exact absurd hcase htype
    | checkStructs =>
        have htasks : (c.checkStructsTask task i body).2.tasks = c.tasks := by
          unfold checkStructsTask
          dsimp only
          split
          · split <;> rfl
          · rfl
        rw [hstructs hcase, htasks]
        exact (h.checkStructs hcase himp hbody).perm List.perm_append_comm
    | checkFunctions =>
        rw [hfunctions hcase]
        exact (h.checkFunctions hcase himp hbody).perm List.perm_append_comm
    | genFunctions =>
        rw [hgen hcase]
        exact (h.genFunctions hcase himp hbody).perm List.perm_append_comm

theorem Sound.step (h : Sound files initialFile c c.tasks) (hstep : c.step files = some c') :
    Sound files initialFile c' c'.tasks := by
  obtain ⟨task, rest, -, hperm, rfl⟩ := step_cases hstep
  have hlive : Sound files initialFile { c with tasks := rest } (task :: rest) :=
    (h.perm hperm).setTasks rest
  exact hlive.process.setTasks _

theorem initial_tables : TableInvariant AST.initial := by
  have hstructures : ∀ s, AST.initial.structures s = {} := fun _ => rfl
  refine ⟨fun id hle => ⟨Unowned.initial.fresh id hle, Unowned.initial.astStruct id⟩, ?_, ?_, ?_,
    ?_, ?_⟩
  · intro s
    simp [hstructures]
  · intro s id
    simp [hstructures, Unowned.initial.astStruct id]
  · intro s id
    simp [hstructures]
  · intro s
    simp [hstructures]
  · intro s
    simp [hstructures]

theorem start_imports (i : ℕ) : ((start initialFile).imports i).body =
      (if i = 0 then
        some { scopeId := globalScope
               functions := List.range AST.nativeFunctions.length } else none) ∧
    ((start initialFile).imports i).name = (if i = 0 then "preload" else "") ∧
    ((start initialFile).imports i).fixups = [] ∧ ((start initialFile).imports i).depsCount = 0 ∧
    ((start initialFile).imports i).depsNow = 0 ∧
    ((start initialFile).imports i).dependencies = [] ∧
    (i ≠ 0 → (start initialFile).imports i = {}) := by
  by_cases hi : i = 0
  · subst hi
    simp [start, createImport, modifyImport]
  · simp [start, createImport, modifyImport, hi]

theorem sound_start : Sound files initialFile (start initialFile) (start initialFile).tasks := by
  have himports := @start_imports initialFile
  have hused : (start initialFile).importsUsed = 1 := rfl
  have hmap : ∀ name i, (start initialFile).importMap name = some i → name = "preload" ∧ i = 0 := by
    intro name i hname
    by_cases heq : name = "preload"
    · subst heq
      have hself : (start initialFile).importMap "preload" = some 0 := rfl
      exact ⟨rfl, (Option.some.inj (hself.symm.trans hname)).symm⟩
    · simp [start, createImport, modifyImport, heq] at hname
  have hbody : ∀ i body, ((start initialFile).imports i).body = some body →
      i = 0 ∧ body.structures = [] := by
    intro i body hsome
    rw [(himports i).1] at hsome
    split at hsome
    · next hi => exact ⟨hi, by rw [← Option.some.inj hsome]⟩
    · cases hsome
  have htables : (start initialFile).ast.structures = AST.initial.structures := rfl
  refine ⟨⟨?_, ?_, ?_, ?_, ?_, ?_, ?_, ?_⟩, ⟨?_, ?_, ?_, ?_, ?_, ?_, ?_⟩,
    ⟨?_, ?_, ?_, ?_, ?_, ?_, ?_, ?_⟩⟩
  · intro i hle
    exact (himports i).2.2.2.2.2.2 (by omega)
  · simp [(himports 0).1]
  · intro name i hname
    obtain ⟨rfl, rfl⟩ := hmap name i hname
    exact ⟨Nat.one_pos, by rw [(himports 0).2.1, if_pos rfl]⟩
  · intro i hlt hne
    omega
  · intro i _
    exact ⟨(himports i).2.2.2.1, (himports i).2.2.2.2.1, (himports i).2.2.2.2.2.1⟩
  · intro i _
    exact (himports i).2.2.1
  · intro i j hmem
    rw [(himports j).2.2.1] at hmem
    simp at hmem
  · intro i
    have hzero : ∑ j ∈ Finset.range (start initialFile).importsUsed,
        ((start initialFile).imports j).fixups.count i = 0 :=
      Finset.sum_eq_zero fun j _ => by rw [(himports j).2.2.1, List.count_nil]
    rw [(himports i).2.2.2.1, (himports i).2.2.2.2.1, hzero]
  · exact initial_tables.congr rfl rfl fun _ => ⟨rfl, rfl, rfl⟩
  · intro s _
    rw [htables]
    rfl
  · intro i body hsome s hs
    rw [(hbody i body hsome).2] at hs
    simp at hs
  · intro i body hsome
    rw [(hbody i body hsome).2]
    exact List.nodup_nil
  · intro i j body other hij hi hj
    exact absurd ((hbody i body hi).1.trans (hbody j other hj).1.symm) hij
  · intro body hsome
    exact (hbody 0 body hsome).2
  · intro i hne body hsome
    exact absurd (hbody i body hsome).1 hne
  · simp [start]
  · intro task ht i himp
    rcases List.mem_cons.mp ht with rfl | ht
    · obtain rfl := Option.some.inj himp
      simp [(himports 0).1, hused]
    · obtain rfl := List.mem_singleton.mp ht
      cases himp
  · intro task ht himp
    rcases List.mem_cons.mp ht with rfl | ht
    · cases himp
    · obtain rfl := List.mem_singleton.mp ht
      exact ⟨rfl, rfl, rfl⟩
  · intro task ht htype i himp
    rcases List.mem_cons.mp ht with rfl | ht
    · cases htype
    · obtain rfl := List.mem_singleton.mp ht
      cases himp
  · intro task ht _
    rcases List.mem_cons.mp ht with rfl | ht
    · rfl
    · obtain rfl := List.mem_singleton.mp ht
      rfl
  · intro task ht htried
    rcases List.mem_cons.mp ht with rfl | ht
    · cases htried
    · obtain rfl := List.mem_singleton.mp ht
      cases htried
  · intro i hmem
    simp [start, createImport, modifyImport] at hmem
  · intro i hlt
    obtain rfl : i = 0 := by omega
    refine .checkingStructs ⟨_, List.mem_cons_self .., rfl, rfl⟩ (fun body hsome => ?_) ?_
    · exact Or.inl (hbody 0 body hsome).2
    · simp [start, createImport, modifyImport]

theorem sound_of_reachable (h : (run files initialFile).Reachable c) :
    Sound files initialFile c c.tasks := by
  refine @Transition.Reachable.invariant _ _ (fun c => Sound files initialFile c c.tasks) ?_ ?_ c h
  · rintro c rfl
    exact sound_start
  · intro c c' hsound hstep
    exact hsound.step hstep

end Compiler

end TinCompiler
