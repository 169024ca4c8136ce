import TinCompiler.Registration.Moves

/-!
# One import for each path

`findImport` and `createImport` are two critical sections, so that two threads that find the
same dependency missing create two imports for it (`not_once`).  As long as an import is only
created for a path that has none at that moment, every path has one import and one
`TASK_LEX_FILE`, and every file that imports it is linked to this import or waits for it
(`once_of_fresh`).
-/

namespace TinCompiler.Registration

variable {Thread : Type} [DecidableEq Thread] {files : String → SourceFile} {initialFile : String}
  {thread : Thread} {s s' : State Thread}

/-- One import and one `TASK_LEX_FILE` for each path, and every file whose dependency on the
path has been registered is linked to the import or waits in its fixups. -/
structure Once (s : State Thread) : Prop where
  imports : ∀ i < s.importsUsed, ∀ j < s.importsUsed, (s.imports i).name = (s.imports j).name →
    i = j
  tasks : s.lexed.Nodup
  registered : ∀ i name, name ∈ (s.imports i).registered → ∃ dep < s.importsUsed,
    (s.imports dep).name = name ∧ (dep ∈ (s.imports i).sharedScopes ∨ i ∈ (s.imports dep).fixups)

/-- If the step creates an import, its path has none. -/
def Fresh (s s' : State Thread) : Prop :=
  s'.importsUsed ≠ s.importsUsed → s.importMap (s'.imports s.importsUsed).name = none

/-- The import that a thread in `TASK_LEX_FILE` is at. -/
def Position.owner : Position → Option ℕ
  | starting imp | parsing imp | parsed imp | resolved imp | registering imp _ | found imp _ _ _
  | created imp _ _ _ => some imp
  | idle | lexing _ | working _ => none

/-- A file to parse: the first one has no import yet. -/
def LexTask (initialFile : String) (s : State Thread) (task : Task) : Prop :=
  (task.imp = none → task.name = initialFile) ∧
    ∀ i, task.imp = some i → 0 < i ∧ i < s.importsUsed

/-- The invariant of the runs in which every created import is fresh. -/
structure OneImport (initialFile : String) (s : State Thread) : Prop where
  builtin : 0 < s.importsUsed
  named : ∀ name i, s.importMap name = some i → i < s.importsUsed ∧ (s.imports i).name = name
  mapped : ∀ i < s.importsUsed, s.importMap (s.imports i).name = some i
  unused : ∀ i, s.importsUsed ≤ i → (s.imports i).registered = []
  lexedOnce : s.lexed.Nodup
  lexed : ∀ name ∈ s.lexed, s.importMap name ≠ none ∨ s.importsUsed = 1 ∧ name = initialFile
  queued : ∀ task ∈ s.tasks, task.type = .lexFile → LexTask initialFile s task
  lexing : ∀ thread task, s.position thread = .lexing task → LexTask initialFile s task
  owner : ∀ thread imp, (s.position thread).owner = some imp → 0 < imp ∧ imp < s.importsUsed
  found : ∀ thread imp name rest dep, s.position thread = .found imp name rest (some dep) →
    s.importMap name = some dep
  created : ∀ thread imp name rest dep, s.position thread = .created imp name rest dep →
    s.importMap name = some dep ∧ name ∉ s.lexed ∧ 0 < dep
  createdOnce : ∀ thread other, thread ≠ other → ∀ imp name rest dep imp' name' rest' dep',
    s.position thread = .created imp name rest dep →
    s.position other = .created imp' name' rest' dep' → name ≠ name'
  registered : ∀ i name, name ∈ (s.imports i).registered → ∃ dep, s.importMap name = some dep ∧
    (dep ∈ (s.imports i).sharedScopes ∨ i ∈ (s.imports dep).fixups)

namespace OneImport

omit [DecidableEq Thread] in
theorem once (h : OneImport initialFile s) : Once s := by
  refine ⟨fun i hi j hj hname => ?_, h.lexedOnce, fun i name hmem => ?_⟩
  · have hmap := h.mapped i hi
    rw [hname, h.mapped j hj] at hmap
    exact (Option.some.inj hmap).symm
  · obtain ⟨dep, hmap, hlinked⟩ := h.registered i name hmem
    obtain ⟨hlt, hdep⟩ := h.named name dep hmap
    exact ⟨dep, hlt, hdep, hlinked⟩

theorem start : OneImport initialFile (start Thread initialFile) := by
  have himports : ∀ i, ((Registration.start Thread initialFile).imports i).registered = [] := by
    intro i
    by_cases hi : i = 0 <;> simp [Registration.start, hi]
  have hmap : ∀ name i, (Registration.start Thread initialFile).importMap name = some i →
      name = "preload" ∧ i = 0 := by
    intro name i hname
    by_cases heq : name = "preload"
    · subst heq
      exact ⟨rfl, by simpa [Registration.start] using hname.symm⟩
    · simp [Registration.start, heq] at hname
  refine ⟨Nat.one_pos, ?_, ?_, fun i _ => himports i, by simp [Registration.start], ?_, ?_, ?_, ?_,
    ?_, ?_, ?_, ?_⟩
  · intro name i hname
    obtain ⟨rfl, rfl⟩ := hmap name i hname
    exact ⟨Nat.one_pos, by simp [Registration.start]⟩
  · intro i hi
    obtain rfl : i = 0 := Nat.lt_one_iff.mp hi
    simp [Registration.start]
  · intro name hname
    exact Or.inr ⟨rfl, by simpa [Registration.start] using hname⟩
  · intro task ht htype
    rcases List.mem_cons.mp ht with rfl | ht
    · cases htype
    · obtain rfl := List.mem_singleton.mp ht
      exact ⟨fun _ => rfl, fun i himp => by cases himp⟩
  · intro thread task hposition
    cases hposition
  · intro thread imp hposition
    cases hposition
  · intro thread imp name rest dep hposition
    cases hposition
  · intro thread imp name rest dep hposition
    cases hposition
  · intro thread other _ imp name rest dep imp' name' rest' dep' hposition
    cases hposition
  · intro i name hmem
    rw [himports] at hmem
    simp at hmem

/-- A step after which every other thread stands where it stood, and all imports are there
with at least the links they had. -/
theorem step_of (h : OneImport initialFile s) (position : Position)
    (hposition : s'.position = Function.update s.position thread position)
    (hused : s.importsUsed ≤ s'.importsUsed)
    (hmap : ∀ name i, s.importMap name = some i → s'.importMap name = some i)
    (hnamed : ∀ name i, s'.importMap name = some i →
      i < s'.importsUsed ∧ (s'.imports i).name = name)
    (hmapped : ∀ i < s'.importsUsed, s'.importMap (s'.imports i).name = some i)
    (hunused : ∀ i, s'.importsUsed ≤ i → (s'.imports i).registered = [])
    (hlexedOnce : s'.lexed.Nodup)
    (hlexed : ∀ name ∈ s'.lexed, s'.importMap name ≠ none ∨
      s'.importsUsed = 1 ∧ name = initialFile)
    (hqueued : ∀ task ∈ s'.tasks, task.type = .lexFile → LexTask initialFile s' task)
    (hlexing : ∀ task, position = .lexing task → LexTask initialFile s task)
    (howner : ∀ imp, position.owner = some imp → 0 < imp ∧ imp < s'.importsUsed)
    (hfound : ∀ imp name rest dep, position = .found imp name rest (some dep) →
      s'.importMap name = some dep)
    (hcreated : ∀ imp name rest dep, position = .created imp name rest dep →
      s'.importMap name = some dep ∧ name ∉ s'.lexed ∧ 0 < dep ∧ s.importMap name = none)
    (hothers : ∀ other imp name rest dep, other ≠ thread →
      s.position other = .created imp name rest dep → name ∉ s'.lexed)
    (hregistered : ∀ i name, name ∈ (s'.imports i).registered →
      ∃ dep, s'.importMap name = some dep ∧
        (dep ∈ (s'.imports i).sharedScopes ∨ i ∈ (s'.imports dep).fixups)) :
    OneImport initialFile s' := by
  have hself : s'.position thread = position := by rw [hposition, Function.update_self]
  have hother : ∀ other, other ≠ thread → s'.position other = s.position other :=
    fun other hne => by rw [hposition, Function.update_of_ne hne]
  have hlex : ∀ task, LexTask initialFile s task → LexTask initialFile s' task := by
    rintro task ⟨hnone, hsome⟩
    exact ⟨hnone, fun i himp => ⟨(hsome i himp).1, Nat.lt_of_lt_of_le (hsome i himp).2 hused⟩⟩
  refine ⟨Nat.lt_of_lt_of_le h.builtin hused, hnamed, hmapped, hunused, hlexedOnce, hlexed, hqueued,
    ?_, ?_, ?_, ?_, ?_, hregistered⟩
  · intro t task hpos
    by_cases ht : t = thread
    · rw [ht, hself] at hpos
      exact hlex task (hlexing task hpos)
    · rw [hother t ht] at hpos
      exact hlex task (h.lexing t task hpos)
  · intro t imp hpos
    by_cases ht : t = thread
    · rw [ht, hself] at hpos
      exact howner imp hpos
    · rw [hother t ht] at hpos
      obtain ⟨hpos, hlt⟩ := h.owner t imp hpos
      exact ⟨hpos, Nat.lt_of_lt_of_le hlt hused⟩
  · intro t imp name rest dep hpos
    by_cases ht : t = thread
    · rw [ht, hself] at hpos
      exact hfound imp name rest dep hpos
    · rw [hother t ht] at hpos
      exact hmap name dep (h.found t imp name rest dep hpos)
  · intro t imp name rest dep hpos
    by_cases ht : t = thread
    · rw [ht, hself] at hpos
      obtain ⟨hnow, hnot, hzero, -⟩ := hcreated imp name rest dep hpos
      exact ⟨hnow, hnot, hzero⟩
    · rw [hother t ht] at hpos
      obtain ⟨hnow, -, hzero⟩ := h.created t imp name rest dep hpos
      exact ⟨hmap name dep hnow, hothers t imp name rest dep ht hpos, hzero⟩
  · intro t u hne imp name rest dep imp' name' rest' dep' ht hu hname
    -- the path of the import created now had none before
    by_cases htt : t = thread
    · have hut : u ≠ thread := fun heq => hne (htt.trans heq.symm)
      rw [htt, hself] at ht
      rw [hother u hut] at hu
      have hnone := (hcreated imp name rest dep ht).2.2.2
      rw [hname, (h.created u imp' name' rest' dep' hu).1] at hnone
      cases hnone
    · rw [hother t htt] at ht
      by_cases hut : u = thread
      · rw [hut, hself] at hu
        have hnone := (hcreated imp' name' rest' dep' hu).2.2.2
        rw [← hname, (h.created t imp name rest dep ht).1] at hnone
        cases hnone
      · rw [hother u hut] at hu
        exact h.createdOnce t u hne imp name rest dep imp' name' rest' dep' ht hu hname

/-- A step that creates no import and takes back no link. -/
theorem step_same (h : OneImport initialFile s) (position : Position)
    (hposition : s'.position = Function.update s.position thread position)
    (hused : s'.importsUsed = s.importsUsed) (hmap : s'.importMap = s.importMap)
    (hlexed : s'.lexed = s.lexed) (hname : ∀ i, (s'.imports i).name = (s.imports i).name)
    (hunused : ∀ i, s.importsUsed ≤ i → (s'.imports i).registered = [])
    (hlinks : ∀ i dep, dep ∈ (s.imports i).sharedScopes ∨ i ∈ (s.imports dep).fixups →
      dep ∈ (s'.imports i).sharedScopes ∨ i ∈ (s'.imports dep).fixups)
    (hregistered : ∀ i name, name ∈ (s'.imports i).registered → name ∈ (s.imports i).registered ∨
      ∃ dep, s.importMap name = some dep ∧
        (dep ∈ (s'.imports i).sharedScopes ∨ i ∈ (s'.imports dep).fixups))
    (hqueued : ∀ task ∈ s'.tasks, task.type = .lexFile → task ∈ s.tasks)
    (hlexing : ∀ task, position = .lexing task → LexTask initialFile s task)
    (howner : ∀ imp, position.owner = some imp → 0 < imp ∧ imp < s.importsUsed)
    (hfound : ∀ imp name rest dep, position = .found imp name rest (some dep) →
      s.importMap name = some dep)
    (hcreated : ∀ imp name rest dep, position ≠ .created imp name rest dep) :
    OneImport initialFile s' := by
  refine h.step_of position hposition (Nat.le_of_eq hused.symm) ?_ ?_ ?_ ?_ ?_ ?_ ?_ hlexing ?_ ?_
    ?_ ?_ ?_
  · rw [hmap]
    exact fun _ _ => id
  · intro name i
    rw [hmap, hused, hname]
    exact h.named name i
  · intro i
    rw [hmap, hused, hname]
    exact h.mapped i
  · rw [hused]
    exact hunused
  · rw [hlexed]
    exact h.lexedOnce
  · rw [hlexed, hmap, hused]
    exact h.lexed
  · intro task ht htype
    obtain ⟨hnone, hsome⟩ := h.queued task (hqueued task ht htype) htype
    exact ⟨hnone, fun i himp => by rw [hused]; exact hsome i himp⟩
  · rw [hused]
    exact howner
  · rw [hmap]
    exact hfound
  · intro imp name rest dep heq
    exact absurd heq (hcreated imp name rest dep)
  · intro other imp name rest dep _ hpos
    rw [hlexed]
    exact (h.created other imp name rest dep hpos).2.1
  · intro i name hmem
    rw [hmap]
    rcases hregistered i name hmem with hold | hnew
    · obtain ⟨dep, hdep, hlinked⟩ := h.registered i name hold
      exact ⟨dep, hdep, hlinks i dep hlinked⟩
    · exact hnew

/-- A step on one import that changes no name, no link and no registration. -/
theorem step_modify (h : OneImport initialFile s) (imp : ℕ) (f : Import → Import)
    (hf : ∀ i, (f i).name = i.name ∧ (f i).fixups = i.fixups ∧
      (f i).sharedScopes = i.sharedScopes ∧ (f i).registered = i.registered) (position : Position)
    (hlexing : ∀ task, position = .lexing task → LexTask initialFile s task)
    (howner : ∀ imp, position.owner = some imp → 0 < imp ∧ imp < s.importsUsed)
    (hfound : ∀ imp name rest dep, position = .found imp name rest (some dep) →
      s.importMap name = some dep)
    (hcreated : ∀ imp name rest dep, position ≠ .created imp name rest dep) :
    OneImport initialFile ((s.modifyImport imp f).move thread position) := by
  have himports : ∀ i, ((s.modifyImport imp f).imports i).name = (s.imports i).name ∧
      ((s.modifyImport imp f).imports i).fixups = (s.imports i).fixups ∧
      ((s.modifyImport imp f).imports i).sharedScopes = (s.imports i).sharedScopes ∧
      ((s.modifyImport imp f).imports i).registered = (s.imports i).registered := by
    intro i
    rw [State.modifyImport_imports]
    split
    · exact hf _
    · exact ⟨rfl, rfl, rfl, rfl⟩
  refine h.step_same position rfl rfl rfl rfl (fun i => (himports i).1) ?_ ?_ ?_ ?_ hlexing howner
    hfound hcreated
  · intro i hle
    exact (himports i).2.2.2.trans (h.unused i hle)
  · intro i dep
    change _ → dep ∈ ((s.modifyImport imp f).imports i).sharedScopes ∨
      i ∈ ((s.modifyImport imp f).imports dep).fixups
    rw [(himports i).2.2.1, (himports dep).2.1]
    exact id
  · intro i name hmem
    change name ∈ ((s.modifyImport imp f).imports i).registered at hmem
    rw [(himports i).2.2.2] at hmem
    exact Or.inl hmem
  · exact fun task ht _ => ht

/-- A new import for a path that has none. -/
theorem step_create (h : OneImport initialFile s) {name : String} (hnone : s.importMap name = none)
    (position : Position) (hposition : position = .starting s.importsUsed ∧ name = initialFile ∨
      ∃ imp rest, position = .created imp name rest s.importsUsed ∧ 0 < imp ∧ imp < s.importsUsed) :
    OneImport initialFile ((s.createImport name).2.move thread position) := by
  have hself : (s.createImport name).2.imports s.importsUsed = { name := name } := by
    rw [State.createImport_imports, if_pos rfl]
  have hold : ∀ i, i < s.importsUsed → (s.createImport name).2.imports i = s.imports i :=
    fun i hi => by rw [State.createImport_imports, if_neg (Nat.ne_of_lt hi)]
  have hmapSelf : (s.createImport name).2.importMap name = some s.importsUsed :=
    Function.update_self ..
  have hmapOther : ∀ other, other ≠ name →
      (s.createImport name).2.importMap other = s.importMap other :=
    fun other hne => Function.update_of_ne hne ..
  have hmap : ∀ other i, s.importMap other = some i →
      (s.createImport name).2.importMap other = some i := by
    intro other i hsome
    rw [hmapOther other fun heq => by rw [heq, hnone] at hsome; cases hsome]
    exact hsome
  have hnamed : ∀ other i, (s.createImport name).2.importMap other = some i →
      i < s.importsUsed + 1 ∧ ((s.createImport name).2.imports i).name = other := by
    intro other i hsome
    by_cases heq : other = name
    · subst heq
      obtain rfl := Option.some.inj (hmapSelf.symm.trans hsome)
      exact ⟨Nat.lt_succ_self _, by rw [hself]⟩
    · rw [hmapOther other heq] at hsome
      obtain ⟨hi, hother⟩ := h.named other i hsome
      exact ⟨Nat.lt_succ_of_lt hi, by rw [hold i hi, hother]⟩
  refine h.step_of position rfl (Nat.le_succ _) hmap hnamed ?_ ?_ h.lexedOnce ?_ ?_ ?_ ?_ ?_ ?_ ?_ ?_
  · intro i hi
    have hi : i < s.importsUsed + 1 := hi
    change (s.createImport name).2.importMap ((s.createImport name).2.imports i).name = some i
    rcases Nat.lt_succ_iff_lt_or_eq.mp hi with hlt | rfl
    · rw [hold i hlt]
      exact hmap _ i (h.mapped i hlt)
    · rw [hself]
      exact hmapSelf
  · intro i hle
    have hle : s.importsUsed + 1 ≤ i := hle
    change ((s.createImport name).2.imports i).registered = []
    rw [State.createImport_imports, if_neg (by omega)]
    exact h.unused i (by omega)
  · intro other hmem
    rcases h.lexed other hmem with hsome | ⟨hone, rfl⟩
    · obtain ⟨i, hsome⟩ := Option.ne_none_iff_exists'.mp hsome
      refine Or.inl ?_
      change (s.createImport name).2.importMap other ≠ none
      rw [hmap other i hsome]
      simp
    · rcases hposition with ⟨-, rfl⟩ | ⟨imp, rest, -, hpos, hlt⟩
      · refine Or.inl ?_
        change (s.createImport name).2.importMap name ≠ none
        rw [hmapSelf]
        simp
      · omega
  · intro task ht htype
    obtain ⟨hfirst, hsome⟩ := h.queued task ht htype
    exact ⟨hfirst, fun i himp => ⟨(hsome i himp).1, Nat.lt_succ_of_lt (hsome i himp).2⟩⟩
  · intro task heq
    rcases hposition with ⟨hpos, -⟩ | ⟨imp, rest, hpos, -⟩ <;>
      · rw [heq] at hpos
        cases hpos
  · intro imp himp
    rcases hposition with ⟨hpos, -⟩ | ⟨imp', rest, hpos, hzero, hlt⟩
    · rw [hpos] at himp
      obtain rfl := Option.some.inj himp
      exact ⟨h.builtin, Nat.lt_succ_self _⟩
    · rw [hpos] at himp
      obtain rfl := Option.some.inj himp
      exact ⟨hzero, Nat.lt_succ_of_lt hlt⟩
  · intro imp other rest dep heq
    rcases hposition with ⟨hpos, -⟩ | ⟨imp', rest', hpos, -⟩ <;>
      · rw [heq] at hpos
        cases hpos
  · intro imp other rest dep heq
    rcases hposition with ⟨hpos, -⟩ | ⟨imp', rest', hpos, hzero, hlt⟩
    · rw [heq] at hpos
      cases hpos
    · rw [hpos] at heq
      cases heq
      refine ⟨hmapSelf, fun hmem => ?_, h.builtin, hnone⟩
      rcases h.lexed name hmem with hsome | ⟨hone, -⟩
      · exact hsome hnone
      · omega
  · intro other imp found rest dep _ hpos
    exact (h.created other imp found rest dep hpos).2.1
  · intro i other hmem
    change other ∈ ((s.createImport name).2.imports i).registered at hmem
    have hi : i < s.importsUsed := by
      by_contra hge
      rw [State.createImport_imports] at hmem
      split at hmem
      · simp at hmem
      · rw [h.unused i (Nat.le_of_not_lt hge)] at hmem
        simp at hmem
    rw [hold i hi] at hmem
    obtain ⟨dep, hdep, hlinked⟩ := h.registered i other hmem
    refine ⟨dep, hmap other dep hdep, ?_⟩
    change dep ∈ ((s.createImport name).2.imports i).sharedScopes ∨
      i ∈ ((s.createImport name).2.imports dep).fixups
    rw [hold i hi, hold dep (h.named other dep hdep).1]
    exact hlinked

/-- A dependency that is found is linked or waited for. -/
theorem step_link (h : OneImport initialFile s) {imp dep : ℕ} {name : String} {rest : List String}
    (hposition : s.position thread = .found imp name rest (some dep)) :
    OneImport initialFile
      (((s.linkImport imp dep).register imp name).move thread (.registering imp rest)) := by
  obtain ⟨hpos, hlt⟩ := h.owner thread imp (by rw [hposition]; rfl)
  have hdep := h.found thread imp name rest dep hposition
  have hrest : State.SameRest s (s.linkImport imp dep) := State.sameRest_linkImport
  have hlinked : ∀ i other, (other ∈ (s.imports i).sharedScopes ∨ i ∈ (s.imports other).fixups) ∨
      (i = imp ∧ other = dep) ↔ other ∈ ((s.linkImport imp dep).imports i).sharedScopes ∨
        i ∈ ((s.linkImport imp dep).imports other).fixups := by
    intro i other
    rw [State.linkImport_imports, State.linkImport_imports]
    split
    · by_cases hi : i = imp
      · simp only [hi, true_and, if_true, List.mem_append, List.mem_singleton]
        exact or_right_comm
      · simp [hi]
    · rw [State.waitFor_imports, State.waitFor_imports]
      by_cases hother : other = dep <;> simp [hother, or_assoc]
  have hsame : ∀ i, ((s.linkImport imp dep).imports i).name = (s.imports i).name ∧
      ((s.linkImport imp dep).imports i).registered = (s.imports i).registered := by
    intro i
    rw [State.linkImport_imports]
    split
    · exact ⟨rfl, rfl⟩
    · rw [State.waitFor_imports]
      exact ⟨rfl, rfl⟩
  have hfields : ∀ i, (((s.linkImport imp dep).register imp name).imports i).name =
        (s.imports i).name ∧
      (((s.linkImport imp dep).register imp name).imports i).fixups =
        ((s.linkImport imp dep).imports i).fixups ∧
      (((s.linkImport imp dep).register imp name).imports i).sharedScopes =
        ((s.linkImport imp dep).imports i).sharedScopes ∧
      (((s.linkImport imp dep).register imp name).imports i).registered =
        if i = imp then (s.imports i).registered ++ [name] else (s.imports i).registered := by
    intro i
    rw [State.register_imports, (hsame i).2]
    exact ⟨(hsame i).1, rfl, rfl, rfl⟩
  have hmoved : (((s.linkImport imp dep).register imp name).move thread
      (.registering imp rest)).position =
        Function.update s.position thread (.registering imp rest) := by
    rw [← hrest.position]
    rfl
  refine h.step_same (.registering imp rest) hmoved hrest.importsUsed
    hrest.importMap hrest.lexed (fun i => (hfields i).1) ?_ ?_ ?_ ?_ (by simp) ?_ (by simp) (by simp)
  · intro i hle
    refine (hfields i).2.2.2.trans ?_
    rw [if_neg (by omega)]
    exact h.unused i hle
  · intro i other hold
    change other ∈ (((s.linkImport imp dep).register imp name).imports i).sharedScopes ∨
      i ∈ (((s.linkImport imp dep).register imp name).imports other).fixups
    rw [(hfields i).2.2.1, (hfields other).2.1]
    exact (hlinked i other).mp (Or.inl hold)
  · intro i other hmem
    change other ∈ (((s.linkImport imp dep).register imp name).imports i).registered at hmem
    rw [(hfields i).2.2.2] at hmem
    by_cases hi : i = imp
    · rw [if_pos hi] at hmem
      rcases List.mem_append.mp hmem with hold | hnew
      · exact Or.inl hold
      · obtain rfl := List.mem_singleton.mp hnew
        refine Or.inr ⟨dep, hdep, ?_⟩
        change dep ∈ (((s.linkImport imp dep).register imp other).imports i).sharedScopes ∨
          i ∈ (((s.linkImport imp dep).register imp other).imports dep).fixups
        rw [(hfields i).2.2.1, (hfields dep).2.1]
        exact (hlinked i dep).mp (Or.inr ⟨hi, rfl⟩)
    · rw [if_neg hi] at hmem
      exact Or.inl hmem
  · intro task ht _
    change task ∈ (s.linkImport imp dep).tasks at ht
    rwa [hrest.tasks] at ht
  · intro imp' himp
    obtain rfl := Option.some.inj himp
    exact ⟨hpos, hlt⟩

/-- The `TASK_LEX_FILE` of an import that was created. -/
theorem step_wait (h : OneImport initialFile s) {imp dep : ℕ} {name : String} {rest : List String}
    (hposition : s.position thread = .created imp name rest dep) :
    OneImport initialFile ((((s.waitFor imp dep).register imp name).pushLexFile name dep).move thread
      (.registering imp rest)) := by
  obtain ⟨hpos, hlt⟩ := h.owner thread imp (by rw [hposition]; rfl)
  obtain ⟨hdep, hnew, hzero⟩ := h.created thread imp name rest dep hposition
  obtain ⟨hdepLt, hname⟩ := h.named name dep hdep
  have hfields : ∀ i, (((s.waitFor imp dep).register imp name).imports i).name =
        (s.imports i).name ∧
      (((s.waitFor imp dep).register imp name).imports i).fixups =
        (if i = dep then (s.imports i).fixups ++ [imp] else (s.imports i).fixups) ∧
      (((s.waitFor imp dep).register imp name).imports i).sharedScopes =
        (s.imports i).sharedScopes ∧
      (((s.waitFor imp dep).register imp name).imports i).registered =
        if i = imp then (s.imports i).registered ++ [name] else (s.imports i).registered := by
    intro i
    rw [State.register_imports, State.waitFor_imports]
    exact ⟨rfl, rfl, rfl, rfl⟩
  have hlinks : ∀ i other, (other ∈ (s.imports i).sharedScopes ∨ i ∈ (s.imports other).fixups) ∨
      (i = imp ∧ other = dep) ↔
        other ∈ (((s.waitFor imp dep).register imp name).imports i).sharedScopes ∨
        i ∈ (((s.waitFor imp dep).register imp name).imports other).fixups := by
    intro i other
    rw [(hfields i).2.2.1, (hfields other).2.1]
    by_cases hother : other = dep <;> simp [hother, or_assoc]
  refine h.step_of (.registering imp rest) rfl (Nat.le_refl _) (fun _ _ => id) ?_ ?_ ?_ ?_ ?_ ?_
    (by simp) ?_ (by simp) (by simp) ?_ ?_
  · intro other i hsome
    obtain ⟨hi, hother⟩ := h.named other i hsome
    exact ⟨hi, (hfields i).1.trans hother⟩
  · intro i hi
    change s.importMap (((s.waitFor imp dep).register imp name).imports i).name = some i
    rw [(hfields i).1]
    exact h.mapped i hi
  · intro i hle
    have hle : s.importsUsed ≤ i := hle
    refine (hfields i).2.2.2.trans ?_
    rw [if_neg (by omega)]
    exact h.unused i hle
  · refine List.nodup_append.mpr ⟨h.lexedOnce, by simp, fun a ha b hb heq => ?_⟩
    obtain rfl := List.mem_singleton.mp hb
    exact hnew (heq ▸ ha)
  · intro other hmem
    rcases List.mem_append.mp hmem with hold | hadded
    · exact h.lexed other hold
    · obtain rfl := List.mem_singleton.mp hadded
      refine Or.inl ?_
      change s.importMap other ≠ none
      rw [hdep]
      simp
  · intro task ht htype
    rcases List.mem_append.mp ht with hold | hadded
    · exact h.queued task hold htype
    · obtain rfl := List.mem_singleton.mp hadded
      refine ⟨fun himp => (by cases himp), fun i himp => ?_⟩
      obtain rfl := Option.some.inj himp
      exact ⟨hzero, hdepLt⟩
  · intro imp' himp
    obtain rfl := Option.some.inj himp
    exact ⟨hpos, hlt⟩
  · intro other imp' found rest' dep' hne hother hmem
    rcases List.mem_append.mp hmem with hold | hadded
    · exact (h.created other imp' found rest' dep' hother).2.1 hold
    · obtain rfl := List.mem_singleton.mp hadded
      exact h.createdOnce other thread hne imp' found rest' dep' imp found rest dep hother hposition rfl
  · intro i other hmem
    change other ∈ (((s.waitFor imp dep).register imp name).imports i).registered at hmem
    rw [(hfields i).2.2.2] at hmem
    have hcase : other ∈ (s.imports i).registered ∨ (i = imp ∧ other = name) := by
      by_cases hi : i = imp
      · rw [if_pos hi] at hmem
        rcases List.mem_append.mp hmem with hold | hadded
        · exact Or.inl hold
        · exact Or.inr ⟨hi, List.mem_singleton.mp hadded⟩
      · rw [if_neg hi] at hmem
        exact Or.inl hmem
    rcases hcase with hold | ⟨hi, rfl⟩
    · obtain ⟨other', hmap, hlinked⟩ := h.registered i other hold
      exact ⟨other', hmap, (hlinks i other').mp (Or.inl hlinked)⟩
    · exact ⟨dep, hdep, (hlinks i dep).mp (Or.inr ⟨hi, rfl⟩)⟩

/-- One step that creates an import only for a path that has none. -/
theorem step (h : OneImport initialFile s) (hfresh : Fresh s s') (hmove : State.Move files thread s s') :
    OneImport initialFile s' := by
  cases hmove with
  | @take task rest hposition htaken =>
      have hmem : ∀ other ∈ rest, other ∈ s.tasks := fun other =>
        mem_of_mem_takeFirst htaken
      have htask : task ∈ s.tasks := (perm_of_takeFirst htaken).mem_iff.mpr (List.mem_cons_self ..)
      by_cases htype : task.type = .lexFile
      · rw [if_pos htype]
        refine h.step_same (.lexing task) rfl rfl rfl rfl (fun _ => rfl) h.unused (fun _ _ => id)
          (fun _ _ => Or.inl) (fun other ht _ => hmem other ht) ?_ (by simp [Position.owner])
          (by simp) (by simp)
        intro other heq
        obtain rfl : task = other := by simpa using heq
        exact h.queued task htask htype
      · rw [if_neg htype]
        exact h.step_same (.working task) rfl rfl rfl rfl (fun _ => rfl) h.unused (fun _ _ => id)
          (fun _ _ => Or.inl) (fun other ht _ => hmem other ht) (by simp) (by simp [Position.owner])
          (by simp) (by simp)
  | @begin task imp hposition himp =>
      refine h.step_same (.starting imp) rfl rfl rfl rfl (fun _ => rfl) h.unused (fun _ _ => id)
        (fun _ _ => Or.inl) (fun _ ht _ => ht) (by simp) ?_ (by simp) (by simp)
      intro imp' howner
      obtain rfl := Option.some.inj howner
      exact (h.lexing thread task hposition).2 imp himp
  | @beginFirst task hposition himp =>
      refine h.step_create ?_ _ (Or.inl ⟨rfl, (h.lexing thread task hposition).1 himp⟩)
      have hname := hfresh (Nat.succ_ne_self _)
      simpa [State.move, State.createImport] using hname
  | @publish imp hposition =>
      refine h.step_modify imp _ ?_ (.parsing imp) (by simp) ?_ (by simp)
        (by simp)
      · exact fun _ => ⟨rfl, rfl, rfl, rfl⟩
      · intro imp' howner
        obtain rfl := Option.some.inj howner
        exact h.owner thread imp (by rw [hposition]; rfl)
  | @«return» imp hposition =>
      refine h.step_modify imp _ ?_ (.parsed imp) (by simp) ?_ (by simp)
        (by simp)
      · exact fun _ => ⟨rfl, rfl, rfl, rfl⟩
      · intro imp' howner
        obtain rfl := Option.some.inj howner
        exact h.owner thread imp (by rw [hposition]; rfl)
  | @resolve imp hposition =>
      have hrest : State.SameRest s (s.resolveFixups imp) := State.sameRest_resolveFixups
      have hmoved : ((s.resolveFixups imp).move thread (.resolved imp)).position =
          Function.update s.position thread (.resolved imp) := by
        rw [← hrest.position]
        rfl
      have himports : ∀ i, (s.resolveFixups imp).imports i = _ := State.resolveFixups_imports
      refine h.step_same (.resolved imp) hmoved hrest.importsUsed hrest.importMap hrest.lexed ?_ ?_ ?_
        ?_ (fun task ht _ => ?_) (by simp) ?_ (by simp) (by simp)
      · intro i
        change ((s.resolveFixups imp).imports i).name = _
        rw [himports]
      · intro i hle
        change ((s.resolveFixups imp).imports i).registered = _
        rw [himports]
        exact h.unused i hle
      · intro i dep hold
        change dep ∈ ((s.resolveFixups imp).imports i).sharedScopes ∨
          i ∈ ((s.resolveFixups imp).imports dep).fixups
        rw [himports, himports]
        rcases hold with hshared | hwaits
        · exact Or.inl (List.mem_append_left _ hshared)
        · by_cases hdep : dep = imp
          · subst hdep
            refine Or.inl (List.mem_append_right _ (List.mem_replicate.mpr ⟨?_, rfl⟩))
            exact Nat.ne_of_gt (List.count_pos_iff.mpr hwaits)
          · exact Or.inr (by simpa [hdep] using hwaits)
      · intro i name hmem
        change name ∈ ((s.resolveFixups imp).imports i).registered at hmem
        rw [himports] at hmem
        exact Or.inl hmem
      · change task ∈ (s.resolveFixups imp).tasks at ht
        rwa [hrest.tasks] at ht
      · intro imp' howner
        obtain rfl := Option.some.inj howner
        exact h.owner thread imp (by rw [hposition]; rfl)
  | @reset imp hposition =>
      refine h.step_modify imp _ ?_ (.registering imp (s.dependencies files imp)) (by simp) ?_ (by simp)
        (by simp)
      · exact fun _ => ⟨rfl, rfl, rfl, rfl⟩
      · intro imp' howner
        obtain rfl := Option.some.inj howner
        exact h.owner thread imp (by rw [hposition]; rfl)
  | @queue imp hposition =>
      refine h.step_same .idle rfl rfl rfl rfl (fun _ => rfl) h.unused (fun _ _ => id)
        (fun _ _ => Or.inl) (fun task ht htype => ?_) (by simp) (by simp [Position.owner]) (by simp)
        (by simp)
      rcases List.mem_append.mp ht with hold | hadded
      · exact hold
      · obtain rfl := List.mem_singleton.mp hadded
        cases htype
  | @find imp name rest hposition =>
      refine h.step_same (.found imp name rest (s.importMap name)) rfl rfl rfl rfl (fun _ => rfl)
        h.unused (fun _ _ => id) (fun _ _ => Or.inl) (fun _ ht _ => ht) (by simp) ?_ ?_ (by simp)
      · intro imp' howner
        obtain rfl := Option.some.inj howner
        exact h.owner thread imp (by rw [hposition]; rfl)
      · intro imp' name' rest' dep heq
        simp only [Position.found.injEq] at heq
        obtain ⟨-, rfl, -, hmap⟩ := heq
        exact hmap
  | @create imp name rest hposition =>
      obtain ⟨hpos, hlt⟩ := h.owner thread imp (by rw [hposition]; rfl)
      refine h.step_create ?_ _ (Or.inr ⟨imp, rest, rfl, hpos, hlt⟩)
      have hname := hfresh (Nat.succ_ne_self _)
      simpa [State.move, State.createImport] using hname
  | link hposition => exact h.step_link hposition
  | wait hposition => exact h.step_wait hposition
  | @work task requeued hposition htype =>
      refine h.step_same .idle rfl rfl rfl rfl (fun _ => rfl) h.unused (fun _ _ => id)
        (fun _ _ => Or.inl) (fun other ht hlex => ?_) (by simp) (by simp [Position.owner]) (by simp)
        (by simp)
      rcases List.mem_append.mp ht with hold | hadded
      · exact hold
      · rw [Option.mem_toList, Option.map_eq_some_iff] at hadded
        obtain ⟨type, hsome, rfl⟩ := hadded
        exact absurd (hsome.trans (congrArg some hlex)) htype

end OneImport

/-- In every run in which an import is only created for a path that has none. -/
theorem once_of_fresh (h : ((run Thread files initialFile).restrict Fresh).Reachable s) : Once s := by
  suffices hone : OneImport initialFile s from hone.once
  refine Transition.Reachable.invariant ?_ ?_ h
  · rintro s rfl
    exact .start
  · rintro s s' hone ⟨⟨thread, requeued, hnext⟩, hfresh⟩
    exact hone.step hfresh (State.next_cases hnext)

/-! ## Two threads that find the same file missing -/

instance (s s' : State Thread) : Decidable (Fresh s s') := inferInstanceAs (Decidable (_ → _))

/-- Two files that import a third one. -/
def forkFiles (path : String) : SourceFile :=
  if path = "main" then { imports := ["a", "b"] }
  else if path = "a" ∨ path = "b" then { imports := ["c"] }
  else {}

/-- One thread parses `main` and registers its dependencies, then each of the two takes one of
the files, and both look for `c` before one of them creates it. -/
def forkOrder : List Bool :=
  List.replicate 22 true ++ List.replicate 7 false ++ [true, false]

theorem not_once : ¬ ∀ (Thread : Type) [DecidableEq Thread] (files : String → SourceFile)
    (initialFile : String) (s : State Thread), (run Thread files initialFile).Reachable s →
      Once s := by
  intro h
  have hexec : ((start Bool "main").exec forkFiles (fun _ _ => true) forkOrder).map (fun s =>
      (s.importsUsed, (s.imports 4).name, (s.imports 5).name)) = some (6, "c", "c") := by
    decide +kernel
  obtain ⟨s, hs, hnames⟩ := Option.map_eq_some_iff.mp hexec
  simp only [Prod.mk.injEq] at hnames
  obtain ⟨hused, hfour, hfive⟩ := hnames
  have honce := h Bool forkFiles "main" s
    (State.reachable_exec (.start rfl) hs).of_restrict
  have hsame := honce.imports 4 (by omega) 5 (by omega) (hfour.trans hfive.symm)
  cases hsame

/-- One thread alone registers `c` twice and creates it once. -/
theorem once_of_fresh_alone :
    ∃ s, (start Bool "main").exec forkFiles (fun s s' => Fresh s s') (List.replicate 40 true) =
      some s ∧ Once s := by
  have hsome : ((start Bool "main").exec forkFiles (fun s s' => Fresh s s')
      (List.replicate 40 true)).isSome = true := by
    decide +kernel
  obtain ⟨s, hs⟩ := Option.isSome_iff_exists.mp hsome
  have hreach : ((run Bool forkFiles "main").restrict Fresh).Reachable s := by
    simpa using State.reachable_exec (.start rfl) hs
  exact ⟨s, hs, once_of_fresh hreach⟩

end TinCompiler.Registration
