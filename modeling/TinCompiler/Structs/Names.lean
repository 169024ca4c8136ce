import TinCompiler.Structs.Completion

/-!
# The names of a file's structures

The types of one file's structures are found by name.  `Grown` says which names the
scope of the file has after some attempts: those of the structures attempted so far,
and what could be found before.  It follows what a type string means
(`Grown.convertFullType_cases`) and that a type found is the same one from then on
(`Grown.stable`).
-/

namespace TinCompiler

variable {base ast : AST} {imp : FileBody} {scopeId : ScopeId}

/-- The tables before the first pass over the structures of a file. -/
structure FreshFile (base : AST) (imp : FileBody) : Prop where
  tables : TableInvariant base
  founded : Founded base
  /-- the entry of `void` -/
  void : 0 < base.typesUsed
  mapped : ∀ i name id, (base.scopes i).typeMap name = some id →
    id < base.typesUsed ∧ (base.typeInfos id).typeId = ⟨id, 0⟩
  uncreated : ∀ s ∈ imp.structures, (base.structures s).createdType = false

/-- No two structures of the file have one name, and no type outside has the name of
one of them. -/
structure DistinctNames (base : AST) (imp : FileBody) : Prop where
  distinct : ∀ s ∈ imp.structures, ∀ t ∈ imp.structures,
    (base.structures s).name = (base.structures t).name → s = t
  unknown : ∀ s ∈ imp.structures, base.findType (base.structures s).name imp.scopeId = none

/-! ## What an attempt does to the names -/

/-- Apart from the members, the mark and the size of `s`, an attempt leaves what
`createStructType` leaves. -/
structure SameNames (s : ℕ) (ast ast' : AST) : Prop where
  scopes : ast'.scopes = ast.scopes
  scopesUsed : ast'.scopesUsed = ast.scopesUsed
  typesUsed : ast'.typesUsed = ast.typesUsed
  typeInfo : ∀ t, (ast'.structures t).typeInfo = (ast.structures t).typeInfo
  createdType : ∀ t, (ast'.structures t).createdType = (ast.structures t).createdType
  name : ∀ t, (ast'.structures t).name = (ast.structures t).name
  typeId : ∀ id, (ast'.typeInfos id).typeId = (ast.typeInfos id).typeId
  entry : ∀ id, (ast.structures s).typeInfo ≠ some id → ast'.typeInfos id = ast.typeInfos id

theorem sameNames_laidOut (ast : AST) (scopeId : ScopeId) (s : ℕ) :
    SameNames s (createStructType ast scopeId s) (laidOut scopeId ast s) := by
  refine ⟨rfl, rfl, rfl, ?_, ?_, ?_, fun _ => rfl, fun _ _ => rfl⟩
  · intro t; simp [laidOut]
  · intro t; simp [laidOut]
  · intro t
    by_cases heq : t = s
    · subst heq; simp [laidOut]
    · rw [laidOut, setMembers_structures_of_ne _ _ _ heq]

theorem attempt_sameNames (h : TableInvariant ast) (s : ℕ) :
    SameNames s (createStructType ast scopeId s) (attempt scopeId ast s) := by
  cases hcomplete : (ast.structures s).complete with
  | true =>
      rw [attempt_of_complete scopeId hcomplete,
        createStructType_of_created (h.complete_created s hcomplete)]
      exact ⟨rfl, rfl, rfl, fun _ => rfl, fun _ => rfl, fun _ => rfl, fun _ => rfl, fun _ _ => rfl⟩
  | false =>
      have hlaid := sameNames_laidOut ast scopeId s
      by_cases hvalid : MembersValid (createStructType ast scopeId s) scopeId s
      · obtain ⟨last, -, hattempt⟩ := attempt_of_valid hcomplete hvalid
        rw [hattempt]
        refine ⟨by simpa using hlaid.scopes, by simpa using hlaid.scopesUsed,
          by simpa using hlaid.typesUsed, ?_, ?_, ?_, ?_, ?_⟩
        · intro t; simpa using hlaid.typeInfo t
        · intro t; simpa using hlaid.createdType t
        · intro t
          rw [← hlaid.name t]
          by_cases heq : t = s
          · subst heq; simp
          · rw [setComplete_structures_of_ne _ _ heq, setTypeSize_structures]
        · intro id
          rw [setComplete_typeInfos, setTypeSize_typeInfos, ← hlaid.typeId id]
          split <;> rfl
        · intro id hne
          rw [setComplete_typeInfos, setTypeSize_typeInfos, hlaid.typeInfo s, if_neg hne,
            hlaid.entry id hne]
      · rw [attempt_of_invalid hcomplete hvalid]
        exact hlaid

/-! ## The names of the scope -/

/-- `ast` is `base` after attempts on structures of the file. -/
structure Grown (base : AST) (imp : FileBody) (ast : AST) : Prop where
  table : TableInvariant ast
  typesUsed : base.typesUsed ≤ ast.typesUsed
  name : ∀ s, (ast.structures s).name = (base.structures s).name
  scopesUsed : ast.scopesUsed = base.scopesUsed
  other : ∀ i, i ≠ imp.scopeId → ast.scopes i = base.scopes i
  shared : (ast.scopes imp.scopeId).sharedScopes = (base.scopes imp.scopeId).sharedScopes
  scopeId : (ast.scopes imp.scopeId).scopeId = (base.scopes imp.scopeId).scopeId
  parent : (ast.scopes imp.scopeId).parent = (base.scopes imp.scopeId).parent
  old : ∀ id, id < base.typesUsed → ast.typeInfos id = base.typeInfos id
  own : ∀ s ∈ imp.structures, ∀ id, (ast.structures s).typeInfo = some id →
    base.typesUsed ≤ id ∧ (ast.typeInfos id).typeId = ⟨id, 0⟩ ∧
      (ast.scopes imp.scopeId).typeMap (base.structures s).name = some id
  map : ∀ name, (∀ s ∈ imp.structures, (ast.structures s).createdType = true →
      (base.structures s).name ≠ name) →
    (ast.scopes imp.scopeId).typeMap name = (base.scopes imp.scopeId).typeMap name

theorem FreshFile.grown (h : FreshFile base imp) : Grown base imp base := by
  refine ⟨h.tables, Nat.le_refl _, fun _ => rfl, rfl, fun _ _ => rfl, rfl, rfl, rfl,
    fun _ _ => rfl, ?_, fun _ _ => rfl⟩
  intro s hs id hinfo
  rw [h.tables.uncreated s (h.uncreated s hs)] at hinfo
  cases hinfo

theorem createStructType_name (s t : ℕ) :
    ((createStructType ast scopeId s).structures t).name = (ast.structures t).name := by
  by_cases heq : t = s
  · subst heq
    unfold createStructType
    split <;> simp
  · rw [createStructType_structures_of_ne heq]

theorem createStructType_scopes {s : ℕ} (hcreated : (ast.structures s).createdType = false) :
    (createStructType ast scopeId s).scopes =
      Function.update ast.scopes scopeId
        { ast.scopes scopeId with
          typeMap := Function.update (ast.scopes scopeId).typeMap (ast.structures s).name
            (some ast.typesUsed) } := by
  simp [createStructType, hcreated, AST.createType]

@[simp] theorem createStructType_scopesUsed (s : ℕ) :
    (createStructType ast scopeId s).scopesUsed = ast.scopesUsed := by
  unfold createStructType
  split <;> rfl

theorem createdType_createStructType {s t : ℕ} (hcreated : (ast.structures t).createdType = true) :
    ((createStructType ast scopeId s).structures t).createdType = true := by
  by_cases heq : t = s
  · subst heq; exact createStructType_createdType
  · rwa [createStructType_structures_of_ne heq]

theorem createStructType_typeId (s : ℕ) (hcreated : (ast.structures s).createdType = false) :
    ((createStructType ast scopeId s).typeInfos ast.typesUsed).typeId = ⟨ast.typesUsed, 0⟩ := by
  simp [createStructType, hcreated, AST.createType]

namespace Grown

theorem createStructType (h : Grown base imp ast) (hnames : DistinctNames base imp) {s : ℕ}
    (hs : s ∈ imp.structures) : Grown base imp (createStructType ast imp.scopeId s) := by
  cases hcreated : (ast.structures s).createdType with
  | true => rwa [createStructType_of_created hcreated]
  | false =>
      have hscopes := @createStructType_scopes ast imp.scopeId s hcreated
      have htypeMap : ((TinCompiler.createStructType ast imp.scopeId s).scopes imp.scopeId).typeMap =
          Function.update (ast.scopes imp.scopeId).typeMap (base.structures s).name
            (some ast.typesUsed) := by
        rw [hscopes, Function.update_self, h.name s]
      refine ⟨h.table.createStructType s, Nat.le_trans h.typesUsed le_typesUsed_createStructType,
        ?_, by simpa using h.scopesUsed, ?_, ?_, ?_, ?_, ?_, ?_, ?_⟩
      · exact fun t => (createStructType_name s t).trans (h.name t)
      · intro i hi
        rw [hscopes, Function.update_of_ne hi, h.other i hi]
      · rw [hscopes, Function.update_self, h.shared]
      · rw [hscopes, Function.update_self, h.scopeId]
      · rw [hscopes, Function.update_self, h.parent]
      · intro id hlt
        rw [createStructType_typeInfos_of_lt (Nat.lt_of_lt_of_le hlt h.typesUsed), h.old id hlt]
      · intro t ht id hinfo
        rw [htypeMap]
        by_cases heq : t = s
        · subst heq
          rw [createStructType_typeInfo hcreated, Option.some.injEq] at hinfo
          subst hinfo
          exact ⟨h.typesUsed, createStructType_typeId t hcreated, Function.update_self ..⟩
        · rw [createStructType_structures_of_ne heq] at hinfo
          obtain ⟨hle, htypeId, hmap⟩ := h.own t ht id hinfo
          rw [createStructType_typeInfos_of_lt (h.table.lt_typesUsed hinfo),
            Function.update_of_ne fun hsame => heq (hnames.distinct t ht s hs hsame)]
          exact ⟨hle, htypeId, hmap⟩
      · intro name hother
        have hne : name ≠ (base.structures s).name := fun heq =>
          hother s hs createStructType_createdType heq.symm
        rw [htypeMap, Function.update_of_ne hne]
        exact h.map name fun t ht hcreated => hother t ht (createdType_createStructType hcreated)

theorem of_sameNames (h : Grown base imp ast) {ast' : AST} {s : ℕ} (hs : s ∈ imp.structures)
    (hsame : SameNames s ast ast') (htable : TableInvariant ast') : Grown base imp ast' := by
  have hentry : ∀ id, id < base.typesUsed → ast'.typeInfos id = ast.typeInfos id := by
    intro id hlt
    refine hsame.entry id fun hinfo => ?_
    exact absurd (h.own s hs id hinfo).1 (Nat.not_le.mpr hlt)
  refine ⟨htable, hsame.typesUsed ▸ h.typesUsed, fun t => (hsame.name t).trans (h.name t),
    hsame.scopesUsed.trans h.scopesUsed, ?_, ?_, ?_, ?_, ?_, ?_, ?_⟩
  · exact hsame.scopes ▸ h.other
  · exact hsame.scopes ▸ h.shared
  · exact hsame.scopes ▸ h.scopeId
  · exact hsame.scopes ▸ h.parent
  · exact fun id hlt => (hentry id hlt).trans (h.old id hlt)
  · intro t ht id hinfo
    rw [hsame.typeInfo] at hinfo
    rw [hsame.typeId, hsame.scopes]
    exact h.own t ht id hinfo
  · intro name hother
    rw [hsame.scopes]
    exact h.map name fun t ht hcreated => hother t ht (by rwa [hsame.createdType])

theorem attempt (h : Grown base imp ast) (hnames : DistinctNames base imp) {s : ℕ}
    (hs : s ∈ imp.structures) : Grown base imp (attempt imp.scopeId ast s) :=
  (h.createStructType hnames hs).of_sameNames hs (attempt_sameNames h.table s) (h.table.attempt s)

theorem attempts (h : Grown base imp ast) (hnames : DistinctNames base imp) {order : List ℕ}
    (horder : ∀ s ∈ order, s ∈ imp.structures) :
    Grown base imp (attempts imp.scopeId ast order) := by
  induction order generalizing ast with
  | nil => exact h
  | cons s order ih =>
      exact ih (h.attempt hnames (horder s (by simp))) fun t ht => horder t (by simp [ht])

/-! ### What a type string means -/

/-- A name means the structure of the file that has it, or what it meant before. -/
theorem findType_cases (h : Grown base imp ast) (name : String) :
    (∃ s ∈ imp.structures, (base.structures s).name = name ∧
      ∃ id, (ast.structures s).typeInfo = some id ∧
        ast.findType name imp.scopeId = some id) ∨
    ((∀ s ∈ imp.structures, (ast.structures s).createdType = true →
        (base.structures s).name ≠ name) ∧
      ast.findType name imp.scopeId = base.findType name imp.scopeId) := by
  by_cases hown : ∃ s ∈ imp.structures, (ast.structures s).createdType = true ∧
      (base.structures s).name = name
  · obtain ⟨s, hs, hcreated, rfl⟩ := hown
    obtain ⟨id, hinfo⟩ := h.table.created s hcreated
    refine Or.inl ⟨s, hs, rfl, id, hinfo, ?_⟩
    exact AST.search_of_own (h.own s hs id hinfo).2.2
  · have hother : ∀ s ∈ imp.structures, (ast.structures s).createdType = true →
        (base.structures s).name ≠ name := fun s hs hcreated heq =>
      hown ⟨s, hs, hcreated, heq⟩
    refine Or.inr ⟨hother, AST.search_congr h.scopesUsed ?_ ?_ ?_ ?_ _⟩
    · intro i
      by_cases hi : i = imp.scopeId
      · rw [hi, h.shared]
      · rw [h.other i hi]
    · intro i
      by_cases hi : i = imp.scopeId
      · rw [hi, h.scopeId]
      · rw [h.other i hi]
    · intro i
      by_cases hi : i = imp.scopeId
      · rw [hi, h.parent]
      · rw [h.other i hi]
    · intro i
      by_cases hi : i = imp.scopeId
      · rw [hi, h.map name hother]
      · rw [h.other i hi]

end Grown

/-- The name and the pointer level of a type string, the level as the 8-bit field has it. -/
def typeLevel (str : String) : ℕ := (AST.splitPointers str).2 % 2 ^ 8

/-- The type found for the name of a type string. -/
theorem convertFullType_of_findType {str : String} {id : ℕ}
    (hfound : ast.findType (AST.splitPointers str).1 scopeId = some id)
    (htypeId : (ast.typeInfos id).typeId = ⟨id, 0⟩) :
    ast.convertFullType str scopeId = ⟨id, typeLevel str⟩ := by
  simp [AST.convertFullType, hfound, htypeId, TypeId.setPointerLevel, typeLevel]

theorem FreshFile.index_lt (h : FreshFile base imp) (str : String) (scopeId : ScopeId) :
    (base.convertFullType str scopeId).index < base.typesUsed := by
  cases hfound : base.findType (AST.splitPointers str).1 scopeId with
  | none => simpa [AST.convertFullType, hfound] using h.void
  | some id =>
      obtain ⟨i, hmap⟩ := AST.exists_of_searchFrom hfound
      obtain ⟨hlt, htypeId⟩ := h.mapped i _ id hmap
      rw [convertFullType_of_findType hfound htypeId]
      exact hlt

namespace Grown

/-- A type string means a structure of the file, or what it meant before. -/
theorem convertFullType_cases (h : Grown base imp ast) (hfresh : FreshFile base imp)
    (str : String) :
    (∃ s ∈ imp.structures, (base.structures s).name = (AST.splitPointers str).1 ∧
      ∃ id, (ast.structures s).typeInfo = some id ∧ base.typesUsed ≤ id ∧
        ast.convertFullType str imp.scopeId = ⟨id, typeLevel str⟩) ∨
    ((∀ s ∈ imp.structures, (ast.structures s).createdType = true →
        (base.structures s).name ≠ (AST.splitPointers str).1) ∧
      ast.convertFullType str imp.scopeId = base.convertFullType str imp.scopeId) := by
  rcases h.findType_cases (AST.splitPointers str).1 with
    ⟨s, hs, hname, id, hinfo, hfound⟩ | ⟨hother, hfound⟩
  · obtain ⟨hle, htypeId, -⟩ := h.own s hs id hinfo
    exact Or.inl ⟨s, hs, hname, id, hinfo, hle, convertFullType_of_findType hfound htypeId⟩
  · refine Or.inr ⟨hother, ?_⟩
    unfold AST.convertFullType
    rw [hfound]
    cases hbase : base.findType (AST.splitPointers str).1 imp.scopeId with
    | none => rfl
    | some id =>
        obtain ⟨i, hmap⟩ := AST.exists_of_searchFrom hbase
        simp only [h.old id (hfresh.mapped i _ id hmap).1]

theorem valid_of_own (hfresh : FreshFile base imp) {id level : ℕ} (hle : base.typesUsed ≤ id) :
    (⟨id, level⟩ : TypeId).Valid :=
  Or.inl (Nat.ne_of_gt (Nat.lt_of_lt_of_le hfresh.void hle))

/-- A type that is found means the same in all tables that come later. -/
theorem stable (h : Grown base imp ast) (hfresh : FreshFile base imp)
    (hnames : DistinctNames base imp) {ast' : AST} (h' : Grown base imp ast')
    (hextends : Extends ast ast') {str : String}
    (hvalid : (ast.convertFullType str imp.scopeId).Valid) :
    ast'.convertFullType str imp.scopeId = ast.convertFullType str imp.scopeId := by
  rcases h.convertFullType_cases hfresh str with
    ⟨s, hs, hname, id, hinfo, -, htype⟩ | ⟨-, htype⟩
  · obtain ⟨-, htypeId, hmap⟩ := h'.own s hs id (hextends.typeInfo s id hinfo)
    rw [htype]
    rw [hname] at hmap
    exact convertFullType_of_findType (AST.search_of_own hmap) htypeId
  · rcases h'.convertFullType_cases hfresh str with
      ⟨s, hs, hname, -⟩ | ⟨-, htype'⟩
    · -- the name of a structure of the file was not found before its first attempt
      have hunknown := hnames.unknown s hs
      rw [hname] at hunknown
      rw [htype] at hvalid
      simp [AST.convertFullType, hunknown, TypeId.Valid] at hvalid
    · rw [htype, htype']

end Grown

end TinCompiler
