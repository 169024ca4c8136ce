import TinCompiler.Structs.Layout

/-!
# What attempts do to the tables

`TableInvariant` ties the structures to the entries of `typeInfos` they own: an
entry has a size other than `0` only once its structure is complete.  Every attempt
keeps it, and every attempt `Extends` the tables: what is complete and what has a
size is never changed again.
-/

namespace TinCompiler

variable {ast : AST} {scopeId : ScopeId}

/-! ## The fields after each part of an attempt -/

section CreateStructType

variable {s : ℕ}

theorem createStructType_of_created (hcreated : (ast.structures s).createdType = true) :
    createStructType ast scopeId s = ast := by
  simp [createStructType, hcreated]

theorem createStructType_structures_of_ne {t : ℕ} (hne : t ≠ s) :
    (createStructType ast scopeId s).structures t = ast.structures t := by
  unfold createStructType
  split
  · rfl
  · simp [hne]

@[simp] theorem createStructType_members (t : ℕ) :
    ((createStructType ast scopeId s).structures t).members = (ast.structures t).members := by
  by_cases heq : t = s
  · subst heq
    unfold createStructType
    split <;> simp
  · rw [createStructType_structures_of_ne heq]

@[simp] theorem createStructType_complete (t : ℕ) :
    ((createStructType ast scopeId s).structures t).complete = (ast.structures t).complete := by
  by_cases heq : t = s
  · subst heq
    unfold createStructType
    split <;> simp
  · rw [createStructType_structures_of_ne heq]

theorem createStructType_createdType :
    ((createStructType ast scopeId s).structures s).createdType = true := by
  unfold createStructType
  split
  · assumption
  · simp

theorem createStructType_typeInfos_of_lt {id : ℕ} (hlt : id < ast.typesUsed) :
    (createStructType ast scopeId s).typeInfos id = ast.typeInfos id := by
  unfold createStructType
  split
  · rfl
  · simp [AST.createType, Nat.ne_of_lt hlt]

theorem le_typesUsed_createStructType :
    ast.typesUsed ≤ (createStructType ast scopeId s).typesUsed := by
  unfold createStructType
  split
  · exact Nat.le_refl _
  · exact Nat.le_succ _

@[simp] theorem createStructType_size (id : ℕ) :
    ((createStructType ast scopeId s).typeInfos id).size = (ast.typeInfos id).size := by
  unfold createStructType
  split
  · rfl
  · by_cases heq : id = ast.typesUsed <;> simp [AST.createType, heq]

theorem createStructType_typeInfo (hcreated : (ast.structures s).createdType = false) :
    ((createStructType ast scopeId s).structures s).typeInfo = some ast.typesUsed := by
  simp [createStructType, hcreated, AST.createType]

theorem createStructType_astStruct (hcreated : (ast.structures s).createdType = false) (id : ℕ) :
    ((createStructType ast scopeId s).typeInfos id).astStruct =
      if id = ast.typesUsed then some s else (ast.typeInfos id).astStruct := by
  by_cases heq : id = ast.typesUsed <;> simp [createStructType, hcreated, AST.createType, heq]

theorem createStructType_typesUsed (hcreated : (ast.structures s).createdType = false) :
    (createStructType ast scopeId s).typesUsed = ast.typesUsed + 1 := by
  simp [createStructType, hcreated, AST.createType]

end CreateStructType

section Setters

variable (ast) (s : ℕ) (members : List Member) (typeInfo : Option ℕ) (size : ℕ)

@[simp] theorem setMembers_typesUsed : (ast.setMembers s members).typesUsed = ast.typesUsed := rfl
@[simp] theorem setMembers_typeInfos : (ast.setMembers s members).typeInfos = ast.typeInfos := rfl
@[simp] theorem setMembers_scopes : (ast.setMembers s members).scopes = ast.scopes := rfl
@[simp] theorem setMembers_scopesUsed :
    (ast.setMembers s members).scopesUsed = ast.scopesUsed := rfl

@[simp] theorem setMembers_structures_self :
    (ast.setMembers s members).structures s = { ast.structures s with members := members } := by
  simp [AST.setMembers]

theorem setMembers_structures_of_ne {t : ℕ} (hne : t ≠ s) :
    (ast.setMembers s members).structures t = ast.structures t := by
  simp [AST.setMembers, hne]

@[simp] theorem setMembers_createdType (t : ℕ) :
    ((ast.setMembers s members).structures t).createdType = (ast.structures t).createdType := by
  by_cases heq : t = s
  · subst heq; simp
  · rw [setMembers_structures_of_ne _ _ _ heq]

@[simp] theorem setMembers_typeInfo (t : ℕ) :
    ((ast.setMembers s members).structures t).typeInfo = (ast.structures t).typeInfo := by
  by_cases heq : t = s
  · subst heq; simp
  · rw [setMembers_structures_of_ne _ _ _ heq]

@[simp] theorem setMembers_complete (t : ℕ) :
    ((ast.setMembers s members).structures t).complete = (ast.structures t).complete := by
  by_cases heq : t = s
  · subst heq; simp
  · rw [setMembers_structures_of_ne _ _ _ heq]

@[simp] theorem setComplete_typesUsed : (ast.setComplete s).typesUsed = ast.typesUsed := rfl
@[simp] theorem setComplete_typeInfos : (ast.setComplete s).typeInfos = ast.typeInfos := rfl
@[simp] theorem setComplete_scopes : (ast.setComplete s).scopes = ast.scopes := rfl
@[simp] theorem setComplete_scopesUsed : (ast.setComplete s).scopesUsed = ast.scopesUsed := rfl

@[simp] theorem setComplete_structures_self :
    (ast.setComplete s).structures s = { ast.structures s with complete := true } := by
  simp [AST.setComplete]

theorem setComplete_structures_of_ne {t : ℕ} (hne : t ≠ s) :
    (ast.setComplete s).structures t = ast.structures t := by
  simp [AST.setComplete, hne]

@[simp] theorem setComplete_createdType (t : ℕ) :
    ((ast.setComplete s).structures t).createdType = (ast.structures t).createdType := by
  by_cases heq : t = s
  · subst heq; simp
  · rw [setComplete_structures_of_ne _ _ heq]

@[simp] theorem setComplete_typeInfo (t : ℕ) :
    ((ast.setComplete s).structures t).typeInfo = (ast.structures t).typeInfo := by
  by_cases heq : t = s
  · subst heq; simp
  · rw [setComplete_structures_of_ne _ _ heq]

@[simp] theorem setTypeSize_typesUsed :
    (ast.setTypeSize typeInfo size).typesUsed = ast.typesUsed := by
  cases typeInfo <;> rfl

@[simp] theorem setTypeSize_structures :
    (ast.setTypeSize typeInfo size).structures = ast.structures := by
  cases typeInfo <;> rfl

@[simp] theorem setTypeSize_scopes : (ast.setTypeSize typeInfo size).scopes = ast.scopes := by
  cases typeInfo <;> rfl

@[simp] theorem setTypeSize_scopesUsed :
    (ast.setTypeSize typeInfo size).scopesUsed = ast.scopesUsed := by
  cases typeInfo <;> rfl

theorem setTypeSize_typeInfos (id : ℕ) :
    (ast.setTypeSize typeInfo size).typeInfos id =
      if typeInfo = some id then { ast.typeInfos id with size := size } else ast.typeInfos id := by
  cases typeInfo with
  | none => simp [AST.setTypeSize]
  | some owned =>
      by_cases heq : id = owned
      · subst heq; simp [AST.setTypeSize]
      · simp [AST.setTypeSize, heq, Ne.symm heq]

@[simp] theorem setTypeSize_astStruct (id : ℕ) :
    ((ast.setTypeSize typeInfo size).typeInfos id).astStruct = (ast.typeInfos id).astStruct := by
  rw [setTypeSize_typeInfos]
  split <;> rfl

theorem setTypeSize_size_of_ne {id : ℕ} (hne : typeInfo ≠ some id) :
    ((ast.setTypeSize typeInfo size).typeInfos id).size = (ast.typeInfos id).size := by
  rw [setTypeSize_typeInfos, if_neg hne]

end Setters

/-! ## The invariant of the tables -/

/-- Structures and the type entries they own. -/
structure TableInvariant (ast : AST) : Prop where
  /-- unused entries are as `init_arrays` left them -/
  fresh : ∀ id, ast.typesUsed ≤ id →
    (ast.typeInfos id).size = 0 ∧ (ast.typeInfos id).astStruct = none
  created : ∀ s, (ast.structures s).createdType = true → ∃ id, (ast.structures s).typeInfo = some id
  owned : ∀ s id, (ast.structures s).typeInfo = some id ↔ (ast.typeInfos id).astStruct = some s
  sized : ∀ s id, (ast.structures s).typeInfo = some id → (ast.typeInfos id).size ≠ 0 →
    (ast.structures s).complete = true
  complete_created : ∀ s, (ast.structures s).complete = true → (ast.structures s).createdType = true
  uncreated : ∀ s, (ast.structures s).createdType = false → (ast.structures s).typeInfo = none

namespace TableInvariant

theorem lt_typesUsed (h : TableInvariant ast) {s id : ℕ}
    (hinfo : (ast.structures s).typeInfo = some id) : id < ast.typesUsed := by
  by_contra hge
  have := (h.fresh id (Nat.le_of_not_lt hge)).2
  rw [(h.owned s id).mp hinfo] at this
  cases this

theorem size_eq_zero (h : TableInvariant ast) {s id : ℕ}
    (hinfo : (ast.structures s).typeInfo = some id)
    (hincomplete : (ast.structures s).complete = false) : (ast.typeInfos id).size = 0 := by
  by_contra hsize
  rw [h.sized s id hinfo hsize] at hincomplete
  cases hincomplete

theorem createStructType (h : TableInvariant ast) (s : ℕ) :
    TableInvariant (createStructType ast scopeId s) := by
  cases hcreated : (ast.structures s).createdType with
  | true => rwa [createStructType_of_created hcreated]
  | false =>
      have hnone := h.uncreated s hcreated
      have hincomplete : (ast.structures s).complete = false := by
        by_contra hcomplete
        rw [h.complete_created s (by simpa using hcomplete)] at hcreated
        cases hcreated
      have hfresh := h.fresh ast.typesUsed (Nat.le_refl _)
      have hunowned : ∀ t, (ast.structures t).typeInfo ≠ some ast.typesUsed := fun t htype =>
        absurd (h.lt_typesUsed htype) (Nat.lt_irrefl _)
      refine ⟨?_, ?_, ?_, ?_, ?_, ?_⟩
      · intro id hle
        rw [createStructType_typesUsed hcreated] at hle
        rw [createStructType_size, createStructType_astStruct hcreated,
          if_neg (Nat.ne_of_gt hle)]
        exact h.fresh id (Nat.le_of_succ_le hle)
      · intro t ht
        by_cases heq : t = s
        · subst heq; exact ⟨_, createStructType_typeInfo hcreated⟩
        · rw [createStructType_structures_of_ne heq] at ht ⊢
          exact h.created t ht
      · intro t id
        rw [createStructType_astStruct hcreated]
        by_cases heq : t = s
        · subst heq
          rw [createStructType_typeInfo hcreated]
          have hnot : (ast.typeInfos id).astStruct ≠ some t := fun howned => by
            rw [(h.owned t id).mpr howned] at hnone
            cases hnone
          by_cases hid : id = ast.typesUsed
          · simp [hid]
          · simp [hid, Ne.symm hid, hnot]
        · rw [createStructType_structures_of_ne heq]
          by_cases hid : id = ast.typesUsed
          · simp [hid, hunowned t, Ne.symm heq]
          · simp [hid, h.owned t id]
      · intro t id hinfo hsize
        rw [createStructType_size] at hsize
        by_cases heq : t = s
        · subst heq
          rw [createStructType_typeInfo hcreated, Option.some.injEq] at hinfo
          rw [← hinfo] at hsize
          exact absurd hfresh.1 hsize
        · rw [createStructType_structures_of_ne heq] at hinfo ⊢
          exact h.sized t id hinfo hsize
      · intro t hcomplete
        by_cases heq : t = s
        · subst heq; exact createStructType_createdType
        · rw [createStructType_structures_of_ne heq] at hcomplete ⊢
          exact h.complete_created t hcomplete
      · intro t ht
        by_cases heq : t = s
        · subst heq; rw [createStructType_createdType] at ht; cases ht
        · rw [createStructType_structures_of_ne heq] at ht ⊢
          exact h.uncreated t ht

theorem setMembers (h : TableInvariant ast) (s : ℕ) (members : List Member) :
    TableInvariant (ast.setMembers s members) := by
  refine ⟨h.fresh, ?_, ?_, ?_, ?_, ?_⟩
  · intro t; simpa using h.created t
  · intro t id; simpa using h.owned t id
  · intro t id; simpa using h.sized t id
  · intro t; simpa using h.complete_created t
  · intro t; simpa using h.uncreated t

/-- The end of a successful attempt. -/
theorem finish (h : TableInvariant ast) (s size : ℕ)
    (hcreated : (ast.structures s).createdType = true) :
    TableInvariant ((ast.setTypeSize (ast.structures s).typeInfo size).setComplete s) := by
  refine ⟨?_, ?_, ?_, ?_, ?_, ?_⟩
  · intro id hle
    have hne : (ast.structures s).typeInfo ≠ some id := fun hinfo =>
      absurd (h.lt_typesUsed hinfo) (Nat.not_lt.mpr (by simpa using hle))
    have hfresh := h.fresh id (by simpa using hle)
    simpa [setTypeSize_size_of_ne _ _ _ hne] using hfresh
  · intro t; simpa using h.created t
  · intro t id; simpa using h.owned t id
  · intro t id hinfo hsize
    by_cases heq : t = s
    · subst heq; simp
    · simp only [setComplete_typeInfo, setTypeSize_structures, setComplete_typeInfos] at hinfo hsize
      rw [setComplete_structures_of_ne _ _ heq, setTypeSize_structures]
      have hne : (ast.structures s).typeInfo ≠ some id := by
        intro hother
        have hsame := (h.owned s id).mp hother
        rw [(h.owned t id).mp hinfo, Option.some.injEq] at hsame
        exact heq hsame
      rw [setTypeSize_size_of_ne _ _ _ hne] at hsize
      exact h.sized t id hinfo hsize
  · intro t hcomplete
    by_cases heq : t = s
    · subst heq; simpa using hcreated
    · rw [setComplete_structures_of_ne _ _ heq] at hcomplete
      simpa using h.complete_created t (by simpa using hcomplete)
  · intro t; simpa using h.uncreated t

theorem laidOut (h : TableInvariant ast) (s : ℕ) : TableInvariant (laidOut scopeId ast s) :=
  (h.createStructType s).setMembers s _

theorem attempt (h : TableInvariant ast) (s : ℕ) : TableInvariant (attempt scopeId ast s) := by
  cases hcomplete : (ast.structures s).complete with
  | true => rwa [attempt_of_complete scopeId hcomplete]
  | false =>
      by_cases hvalid : MembersValid (TinCompiler.createStructType ast scopeId s) scopeId s
      · obtain ⟨last, -, hattempt⟩ := attempt_of_valid hcomplete hvalid
        rw [hattempt]
        refine (h.laidOut s).finish s _ ?_
        simpa [TinCompiler.laidOut] using createStructType_createdType
      · rw [attempt_of_invalid hcomplete hvalid]
        exact h.laidOut s

theorem attempts (h : TableInvariant ast) (order : List ℕ) :
    TableInvariant (attempts scopeId ast order) := by
  induction order generalizing ast with
  | nil => exact h
  | cons s order ih => exact ih (h.attempt s)

end TableInvariant

/-! ## What is never changed again -/

/-- `ast'` comes after `ast`: complete structures, sizes other than `0` and the owners
of entries are the same. -/
structure Extends (ast ast' : AST) : Prop where
  typesUsed : ast.typesUsed ≤ ast'.typesUsed
  complete : ∀ s, (ast.structures s).complete = true → ast'.structures s = ast.structures s
  typeInfo : ∀ s id, (ast.structures s).typeInfo = some id → (ast'.structures s).typeInfo = some id
  size : ∀ id, (ast.typeInfos id).size ≠ 0 → (ast'.typeInfos id).size = (ast.typeInfos id).size
  astStruct : ∀ id, id < ast.typesUsed →
    (ast'.typeInfos id).astStruct = (ast.typeInfos id).astStruct
  completeSize : ∀ s id, (ast.structures s).complete = true →
    (ast.structures s).typeInfo = some id → (ast'.typeInfos id).size = (ast.typeInfos id).size

namespace Extends

variable {ast' ast'' : AST}

theorem refl (ast : AST) : Extends ast ast :=
  ⟨Nat.le_refl _, fun _ _ => rfl, fun _ _ h => h, fun _ _ => rfl, fun _ _ => rfl,
    fun _ _ _ _ => rfl⟩

theorem trans (h : Extends ast ast') (h' : Extends ast' ast'') : Extends ast ast'' := by
  refine ⟨Nat.le_trans h.typesUsed h'.typesUsed, ?_, ?_, ?_, ?_, ?_⟩
  · intro s hcomplete
    have heq := h.complete s hcomplete
    rw [h'.complete s (by rw [heq]; exact hcomplete), heq]
  · exact fun s id hinfo => h'.typeInfo s id (h.typeInfo s id hinfo)
  · intro id hsize
    have heq := h.size id hsize
    rw [h'.size id (by rw [heq]; exact hsize), heq]
  · intro id hlt
    rw [h'.astStruct id (Nat.lt_of_lt_of_le hlt h.typesUsed), h.astStruct id hlt]
  · intro s id hcomplete hinfo
    rw [h'.completeSize s id (by rwa [h.complete s hcomplete]) (h.typeInfo s id hinfo),
      h.completeSize s id hcomplete hinfo]

theorem sizeOfType (h : Extends ast ast') {type : TypeId} (hsize : ast.sizeOfType type ≠ 0) :
    ast'.sizeOfType type = ast.sizeOfType type := by
  unfold AST.sizeOfType AST.getType at *
  split
  · rfl
  · next hlevel =>
      rw [if_neg hlevel] at hsize
      exact h.size _ hsize

end Extends

theorem extends_createStructType (h : TableInvariant ast) (s : ℕ) :
    Extends ast (createStructType ast scopeId s) := by
  cases hcreated : (ast.structures s).createdType with
  | true => rw [createStructType_of_created hcreated]; exact .refl ast
  | false =>
      refine ⟨le_typesUsed_createStructType, ?_, ?_, ?_, ?_,
        fun _ id _ _ => createStructType_size id⟩
      · intro t hcomplete
        refine createStructType_structures_of_ne fun heq => ?_
        rw [heq] at hcomplete
        rw [h.complete_created s hcomplete] at hcreated
        cases hcreated
      · intro t id hinfo
        by_cases heq : t = s
        · subst heq
          rw [h.uncreated t hcreated] at hinfo
          cases hinfo
        · rwa [createStructType_structures_of_ne heq]
      · exact fun id _ => createStructType_size id
      · exact fun id hlt => by rw [createStructType_typeInfos_of_lt hlt]

theorem extends_setMembers {s : ℕ} (hincomplete : (ast.structures s).complete = false)
    (members : List Member) : Extends ast (ast.setMembers s members) := by
  refine ⟨Nat.le_refl _, ?_, ?_, fun _ _ => rfl, fun _ _ => rfl, fun _ _ _ _ => rfl⟩
  · intro t hcomplete
    refine setMembers_structures_of_ne _ _ _ fun heq => ?_
    rw [heq, hincomplete] at hcomplete
    cases hcomplete
  · intro t id hinfo
    simpa using hinfo

theorem extends_finish (h : TableInvariant ast) {s : ℕ}
    (hincomplete : (ast.structures s).complete = false) (size : ℕ) :
    Extends ast ((ast.setTypeSize (ast.structures s).typeInfo size).setComplete s) := by
  refine ⟨by simp, ?_, ?_, ?_, ?_, ?_⟩
  · intro t hcomplete
    rw [setComplete_structures_of_ne, setTypeSize_structures]
    intro heq
    rw [heq, hincomplete] at hcomplete
    cases hcomplete
  · intro t id hinfo
    simpa using hinfo
  · intro id hsize
    refine setTypeSize_size_of_ne _ _ _ fun hinfo => ?_
    exact hsize (h.size_eq_zero hinfo hincomplete)
  · intro id _
    simp
  · intro t id hcomplete hinfo
    refine setTypeSize_size_of_ne _ _ _ fun hother => ?_
    have hsame := (h.owned s id).mp hother
    rw [(h.owned t id).mp hinfo, Option.some.injEq] at hsame
    rw [hsame, hincomplete] at hcomplete
    cases hcomplete

theorem extends_laidOut (h : TableInvariant ast) {s : ℕ}
    (hincomplete : (ast.structures s).complete = false) :
    Extends ast (laidOut scopeId ast s) :=
  (extends_createStructType h s).trans (extends_setMembers (by simpa using hincomplete) _)

theorem extends_attempt (h : TableInvariant ast) (s : ℕ) :
    Extends ast (attempt scopeId ast s) := by
  cases hcomplete : (ast.structures s).complete with
  | true => rw [attempt_of_complete scopeId hcomplete]; exact .refl ast
  | false =>
      by_cases hvalid : MembersValid (createStructType ast scopeId s) scopeId s
      · obtain ⟨last, -, hattempt⟩ := attempt_of_valid hcomplete hvalid
        rw [hattempt]
        refine (extends_laidOut h hcomplete).trans (extends_finish (h.laidOut s) ?_ _)
        simpa [laidOut] using hcomplete
      · rw [attempt_of_invalid hcomplete hvalid]
        exact extends_laidOut h hcomplete

theorem extends_attempts (h : TableInvariant ast) (order : List ℕ) :
    Extends ast (attempts scopeId ast order) := by
  induction order generalizing ast with
  | nil => exact .refl ast
  | cons s order ih => exact (extends_attempt h s).trans (ih (h.attempt s))

end TinCompiler
