import TinCompiler.Compiler.Imports
import TinCompiler.Generator.Tables
import TinCompiler.Structs.Order

/-!
# The tasks of the queue

The invariant of the loop: which task an import has and how far its structures are
(`Stage`).  `live` are the tasks of the queue together with the one that is processed; their
order does not matter.
-/

namespace TinCompiler

namespace Compiler

variable {files : String → SourceFile} {initialFile : String} {c c' : Compiler}
  {live live' rest : List Task} {task : Task} {type : TaskType} {i j : ℕ} {body : FileBody}

/-- The import has a task of this type. -/
def Queued (live : List Task) (type : TaskType) (i : ℕ) : Prop :=
  ∃ task ∈ live, task.type = type ∧ task.imp = some i

theorem queued_perm (hperm : live.Perm live') : Queued live type i ↔ Queued live' type i :=
  exists_congr fun _ => and_congr_left' hperm.mem_iff

theorem queued_append : Queued (live ++ live') type i ↔ Queued live type i ∨ Queued live' type i := by
  simp only [Queued, List.mem_append, or_and_right, exists_or]

theorem queued_cons : Queued (task :: live) type i ↔
    (task.type = type ∧ task.imp = some i) ∨ Queued live type i := by
  simp only [Queued, List.mem_cons, or_and_right, exists_or, exists_eq_left]

theorem queued_cons_of_ne (himp : task.imp ≠ some i) :
    Queued (task :: live) type i ↔ Queued live type i := by
  simp [queued_cons, himp]

/-- All structures of the import are complete. -/
def Finished (c : Compiler) (i : ℕ) : Prop :=
  ∀ body, (c.imports i).body = some body →
    ∀ s ∈ body.structures, (c.ast.structures s).complete = true

/-- A structure of the import is incomplete, if it has any. -/
def Unfinished (c : Compiler) (i : ℕ) : Prop :=
  ∀ body, (c.imports i).body = some body → body.structures = [] ∨
    ∃ s ∈ body.structures, (c.ast.structures s).complete = false

/-- Where an import is: at one of the four tasks, given up after the second or the third, or
done. -/
inductive Stage (c : Compiler) (live : List Task) (i : ℕ) : Prop where
  | parsing (task : Queued live .lexFile i) (unchecked : (.checkFunctions, i) ∉ c.processed)
  | checkingStructs (task : Queued live .checkStructs i) (unfinished : Unfinished c i)
      (unchecked : (.checkFunctions, i) ∉ c.processed)
  | structsFailed (idle : ∀ type, ¬ Queued live type i) (errors : c.reporter.errors ≠ 0)
      (incomplete : ∃ body, (c.imports i).body = some body ∧
        ∃ s ∈ body.structures, (c.ast.structures s).complete = false)
      (unchecked : (.checkFunctions, i) ∉ c.processed)
  | checkingFunctions (task : Queued live .checkFunctions i) (finished : Finished c i)
      (unchecked : (.checkFunctions, i) ∉ c.processed)
  | generating (task : Queued live .genFunctions i) (finished : Finished c i)
      (checked : (.checkFunctions, i) ∈ c.processed)
  | functionsFailed (idle : ∀ type, ¬ Queued live type i) (errors : c.reporter.errors ≠ 0)
      (finished : Finished c i) (checked : (.checkFunctions, i) ∈ c.processed)
  | done (idle : ∀ type, ¬ Queued live type i) (finished : Finished c i)
      (checked : (.checkFunctions, i) ∈ c.processed)
      (generated : (.genFunctions, i) ∈ c.processed)

/-- What is said about `i` in `c` also holds in `c'`. -/
structure SameStage (c c' : Compiler) (i : ℕ) : Prop where
  body : (c'.imports i).body = (c.imports i).body
  complete : ∀ body, (c.imports i).body = some body → ∀ s ∈ body.structures,
    (c'.ast.structures s).complete = (c.ast.structures s).complete
  errors : c.reporter.errors ≤ c'.reporter.errors
  checked : (.checkFunctions, i) ∈ c'.processed ↔ (.checkFunctions, i) ∈ c.processed
  generated : (.genFunctions, i) ∈ c.processed → (.genFunctions, i) ∈ c'.processed

namespace SameStage

theorem finished (h : SameStage c c' i) (hfinished : Finished c i) : Finished c' i := by
  intro body hbody s hs
  rw [h.body] at hbody
  rw [h.complete body hbody s hs]
  exact hfinished body hbody s hs

theorem unfinished (h : SameStage c c' i) (hunfinished : Unfinished c i) : Unfinished c' i := by
  intro body hbody
  rw [h.body] at hbody
  refine (hunfinished body hbody).imp_right fun ⟨s, hs, hincomplete⟩ => ⟨s, hs, ?_⟩
  rwa [h.complete body hbody s hs]

/-- The stage of an import that the step is not about. -/
theorem stage (h : SameStage c c' i)
    (hqueued : ∀ type, Queued live' type i ↔ Queued live type i) (hstage : Stage c live i) :
    Stage c' live' i := by
  have herrors : c.reporter.errors ≠ 0 → c'.reporter.errors ≠ 0 := by
    have := h.errors
    omega
  have hidle : (∀ type, ¬ Queued live type i) → ∀ type, ¬ Queued live' type i :=
    fun hidle type hqueue => hidle type ((hqueued type).mp hqueue)
  have hunchecked := mt h.checked.mp
  cases hstage with
  | parsing task unchecked => exact .parsing ((hqueued _).mpr task) (hunchecked unchecked)
  | checkingStructs task unfinished unchecked =>
      exact .checkingStructs ((hqueued _).mpr task) (h.unfinished unfinished) (hunchecked unchecked)
  | structsFailed idle errors incomplete unchecked =>
      obtain ⟨body, hbody, s, hs, hincomplete⟩ := incomplete
      refine .structsFailed (hidle idle) (herrors errors) ⟨body, ?_, s, hs, ?_⟩
        (hunchecked unchecked)
      · rw [h.body, hbody]
      · rwa [h.complete body hbody s hs]
  | checkingFunctions task finished unchecked =>
      exact .checkingFunctions ((hqueued _).mpr task) (h.finished finished) (hunchecked unchecked)
  | generating task finished checked =>
      exact .generating ((hqueued _).mpr task) (h.finished finished) (h.checked.mpr checked)
  | functionsFailed idle errors finished checked =>
      exact .functionsFailed (hidle idle) (herrors errors) (h.finished finished)
        (h.checked.mpr checked)
  | done idle finished checked generated =>
      exact .done (hidle idle) (h.finished finished) (h.checked.mpr checked)
        (h.generated generated)

end SameStage

/-- The tasks and the imports they are for. -/
structure QueueSound (initialFile : String) (c : Compiler) (live : List Task) : Prop where
  single : (live.map Task.imp).Nodup
  parsed : ∀ task ∈ live, ∀ i, task.imp = some i →
    i < c.importsUsed ∧ ((c.imports i).body = none ↔ task.type = .lexFile)
  first : ∀ task ∈ live, task.imp = none →
    task.type = .lexFile ∧ task.name = initialFile ∧ c.importsUsed = 1
  named : ∀ task ∈ live, task.type = .lexFile → ∀ i, task.imp = some i →
    (c.imports i).name = task.name
  untried : ∀ task ∈ live, task.type = .lexFile → task.noChange = false
  tried : ∀ task ∈ live, task.noChange = true → ∀ i body, task.imp = some i →
    (c.imports i).body = some body → ∀ s ∈ body.structures, (c.ast.structures s).createdType = true
  checked : ∀ i, (.checkFunctions, i) ∈ c.processed →
    i < c.importsUsed ∧ (c.imports i).body ≠ none
  stage : ∀ i < c.importsUsed, Stage c live i

namespace QueueSound

theorem perm (h : QueueSound initialFile c live) (hperm : live.Perm live') :
    QueueSound initialFile c live' := by
  have hmem : ∀ task ∈ live', task ∈ live := fun task => hperm.mem_iff.mpr
  refine ⟨((hperm.map _).nodup_iff).mp h.single, fun task ht => h.parsed task (hmem task ht),
    fun task ht => h.first task (hmem task ht), fun task ht => h.named task (hmem task ht),
    fun task ht => h.untried task (hmem task ht), fun task ht => h.tried task (hmem task ht),
    h.checked, ?_⟩
  intro i hi
  have hsame : SameStage c c i := ⟨rfl, fun _ _ _ _ => rfl, Nat.le_refl _, Iff.rfl, id⟩
  exact hsame.stage (fun type => (queued_perm hperm).symm) (h.stage i hi)

/-- Two tasks for one import are the same task. -/
theorem not_queued (h : QueueSound initialFile c (task :: rest)) (himp : task.imp = some i) :
    ¬ Queued rest type i := by
  rintro ⟨other, hother, -, hsame⟩
  have hsingle := h.single
  rw [List.map_cons, List.nodup_cons, himp, ← hsame] at hsingle
  exact hsingle.1 (List.mem_map_of_mem hother)

theorem queued_head (h : QueueSound initialFile c (task :: rest)) (himp : task.imp = some i) :
    Queued (task :: rest) type i ↔ task.type = type := by
  rw [queued_cons, or_iff_left (h.not_queued himp)]
  simp [himp]

/-- A step that is not about the tasks. -/
theorem congr (h : QueueSound initialFile c live) (hused : c'.importsUsed = c.importsUsed)
    (hname : ∀ i, (c'.imports i).name = (c.imports i).name)
    (hcreated : ∀ s, (c.ast.structures s).createdType = true →
      (c'.ast.structures s).createdType = true)
    (hstage : ∀ i, SameStage c c' i) : QueueSound initialFile c' live := by
  refine ⟨h.single, ?_, ?_, ?_, h.untried, ?_, ?_, ?_⟩
  · intro task ht i himp
    rw [hused, (hstage i).body]
    exact h.parsed task ht i himp
  · intro task ht himp
    rw [hused]
    exact h.first task ht himp
  · intro task ht htype i himp
    rw [hname]
    exact h.named task ht htype i himp
  · intro task ht htried i body himp hbody s hs
    rw [(hstage i).body] at hbody
    exact hcreated s (h.tried task ht htried i body himp hbody s hs)
  · intro i hchecked
    rw [hused, (hstage i).body]
    exact h.checked i ((hstage i).checked.mp hchecked)
  · intro i hi
    rw [hused] at hi
    exact (hstage i).stage (fun _ => Iff.rfl) (h.stage i hi)

/-- The processed task is replaced by one for the same import, or leaves the queue. -/
theorem replace (h : QueueSound initialFile c (task :: rest)) (himp : task.imp = some i)
    (queued : Option Task) (hqueued : ∀ task' ∈ queued, task'.imp = some i ∧
      ((c'.imports i).body = none ↔ task'.type = .lexFile) ∧ task'.type ≠ .lexFile ∧
      (task'.noChange = true → ∀ body, (c'.imports i).body = some body →
        ∀ s ∈ body.structures, (c'.ast.structures s).createdType = true))
    (hused : c'.importsUsed = c.importsUsed)
    (hname : ∀ i, (c'.imports i).name = (c.imports i).name)
    (hcreated : ∀ s, (c.ast.structures s).createdType = true →
      (c'.ast.structures s).createdType = true)
    (hparsed : (c'.imports i).body ≠ none) (hother : ∀ j, j ≠ i → SameStage c c' j)
    (hself : Stage c' (queued.toList ++ rest) i) :
    QueueSound initialFile c' (queued.toList ++ rest) := by
  have hne : ∀ other ∈ rest, other.imp ≠ some i := by
    intro other ht hsame
    exact h.not_queued himp ⟨other, ht, rfl, hsame⟩
  have hmem : ∀ other ∈ queued.toList ++ rest, other ∈ rest ∨ other ∈ queued := by
    intro other ht
    rcases List.mem_append.mp ht with ht | ht
    · exact Or.inr (by simpa using ht)
    · exact Or.inl ht
  have htail : ∀ other ∈ rest, other ∈ task :: rest := fun other => List.mem_cons_of_mem _
  have hlt := (h.parsed task (List.mem_cons_self ..) i himp).1
  refine ⟨?_, ?_, ?_, ?_, ?_, ?_, ?_, ?_⟩
  · have hsingle := (List.nodup_cons.mp (List.map_cons ▸ h.single)).2
    cases queued with
    | none => exact hsingle
    | some task' =>
        refine List.nodup_cons.mpr ⟨fun hmem => ?_, hsingle⟩
        obtain ⟨other, hin, hsame⟩ := List.mem_map.mp hmem
        exact hne other hin (hsame.trans (hqueued task' rfl).1)
  · intro other ht j hj
    rcases hmem other ht with ht | ht
    · have hji : j ≠ i := fun heq => hne other ht (heq ▸ hj)
      rw [hused, (hother j hji).body]
      exact h.parsed other (htail other ht) j hj
    · obtain ⟨hi, hbody, -⟩ := hqueued other ht
      obtain rfl : i = j := Option.some.inj (hi.symm.trans hj)
      rw [hused]
      exact ⟨hlt, hbody⟩
  · intro other ht hnone
    rcases hmem other ht with ht | ht
    · rw [hused]
      exact h.first other (htail other ht) hnone
    · rw [(hqueued other ht).1] at hnone
      cases hnone
  · intro other ht htype j hj
    rcases hmem other ht with ht | ht
    · rw [hname]
      exact h.named other (htail other ht) htype j hj
    · exact absurd htype (hqueued other ht).2.2.1
  · intro other ht htype
    rcases hmem other ht with ht | ht
    · exact h.untried other (htail other ht) htype
    · exact absurd htype (hqueued other ht).2.2.1
  · intro other ht htried j body hj hbody s hs
    rcases hmem other ht with ht | ht
    · have hji : j ≠ i := fun heq => hne other ht (heq ▸ hj)
      rw [(hother j hji).body] at hbody
      exact hcreated s (h.tried other (htail other ht) htried j body hj hbody s hs)
    · obtain ⟨hi, -, -, hcreated⟩ := hqueued other ht
      obtain rfl : i = j := Option.some.inj (hi.symm.trans hj)
      exact hcreated htried body hbody s hs
  · intro j hchecked
    rw [hused]
    by_cases heq : j = i
    · exact heq ▸ ⟨hlt, hparsed⟩
    · rw [(hother j heq).body]
      exact h.checked j ((hother j heq).checked.mp hchecked)
  · intro j hj
    rw [hused] at hj
    by_cases heq : j = i
    · exact heq ▸ hself
    · refine (hother j heq).stage (fun type => ?_) (h.stage j hj)
      rw [queued_cons_of_ne (by rw [himp]; simpa using Ne.symm heq)]
      cases queued with
      | none => rfl
      | some task' =>
          refine queued_cons_of_ne ?_
          rw [(hqueued task' rfl).1]
          simpa using Ne.symm heq

/-! ### The task that is processed -/

/-- What is known of the import of a task, by the type of the task. -/
def StageAt (c : Compiler) (i : ℕ) : TaskType → Prop
  | .lexFile => (.checkFunctions, i) ∉ c.processed
  | .checkStructs => Unfinished c i ∧ (.checkFunctions, i) ∉ c.processed
  | .checkFunctions => Finished c i ∧ (.checkFunctions, i) ∉ c.processed
  | .genFunctions => Finished c i ∧ (.checkFunctions, i) ∈ c.processed

theorem stageAt (h : QueueSound initialFile c (task :: rest)) (himp : task.imp = some i) :
    StageAt c i task.type := by
  have htask : ∀ type, Queued (task :: rest) type i → task.type = type :=
    fun type => (h.queued_head himp).mp
  have hbusy : ¬ ∀ type, ¬ Queued (task :: rest) type i :=
    fun hidle => hidle _ ((h.queued_head himp).mpr rfl)
  cases h.stage i (h.parsed task (List.mem_cons_self ..) i himp).1 with
  | parsing queued unchecked => rw [htask _ queued]; exact unchecked
  | checkingStructs queued unfinished unchecked =>
      rw [htask _ queued]
      exact ⟨unfinished, unchecked⟩
  | structsFailed idle => exact absurd idle hbusy
  | checkingFunctions queued finished unchecked =>
      rw [htask _ queued]
      exact ⟨finished, unchecked⟩
  | generating queued finished checked =>
      rw [htask _ queued]
      exact ⟨finished, checked⟩
  | functionsFailed idle => exact absurd idle hbusy
  | done idle => exact absurd idle hbusy

/-- The first file to parse has no import yet. -/
theorem tail (h : QueueSound initialFile c (task :: rest)) (himp : task.imp = none) :
    QueueSound initialFile c rest := by
  have htail : ∀ other ∈ rest, other ∈ task :: rest := fun other => List.mem_cons_of_mem _
  refine ⟨(List.nodup_cons.mp (List.map_cons ▸ h.single)).2,
    fun other ht => h.parsed other (htail other ht), fun other ht => h.first other (htail other ht),
    fun other ht => h.named other (htail other ht), fun other ht => h.untried other (htail other ht),
    fun other ht => h.tried other (htail other ht), h.checked, fun i hi => ?_⟩
  have hsame : SameStage c c i := ⟨rfl, fun _ _ _ _ => rfl, Nat.le_refl _, Iff.rfl, id⟩
  exact hsame.stage (fun type => (queued_cons_of_ne (by simp [himp])).symm) (h.stage i hi)

end QueueSound

end Compiler

end TinCompiler
