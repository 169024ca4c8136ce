import TinCompiler.Structs.Order

/-!
# What one call of `CheckStructs` reports

The results of a pass against the tables it leaves: it succeeds when all structures are
complete (`complete_of_success`), a change makes one more of them complete
(`incomplete_lt_of_changed`), and a pass that is repeated after two without a change fails
again (`failure_of_repeat`) and reports an error (`errors_of_failure`).
-/

namespace TinCompiler

variable {ast : AST} {scopeId : ScopeId} {ignoreErrors : Bool} {pass : StructPass} {s t : ℕ}

/-! ## One attempt -/

theorem createStructType_structuresUsed :
    (createStructType ast scopeId s).structuresUsed = ast.structuresUsed := by
  unfold createStructType
  split <;> rfl

@[simp] theorem setTypeSize_structuresUsed (typeInfo : Option ℕ) (size : ℕ) :
    (ast.setTypeSize typeInfo size).structuresUsed = ast.structuresUsed := by
  cases typeInfo <;> rfl

/-- An attempt sets no field of a structure that another one reads as a declaration. -/
theorem attempt_members :
    ((attempt scopeId ast s).structures t).members.map Member.typeString =
      (ast.structures t).members.map Member.typeString := by
  by_cases heq : t = s
  · subst heq
    cases hcomplete : (ast.structures t).complete with
    | true => rw [attempt_of_complete scopeId hcomplete]
    | false =>
        by_cases hvalid : MembersValid (createStructType ast scopeId t) scopeId t
        · obtain ⟨last, -, hattempt⟩ := attempt_of_valid hcomplete hvalid
          rw [hattempt, setComplete_structures_self, setTypeSize_structures]
          simp [laidOut]
        · rw [attempt_of_invalid hcomplete hvalid]
          simp [laidOut]
  · rw [attempt_structures_of_ne heq]

theorem attempt_structuresUsed :
    (attempt scopeId ast s).structuresUsed = ast.structuresUsed := by
  cases hcomplete : (ast.structures s).complete with
  | true => rw [attempt_of_complete scopeId hcomplete]
  | false =>
      by_cases hvalid : MembersValid (createStructType ast scopeId s) scopeId s
      · obtain ⟨last, -, hattempt⟩ := attempt_of_valid hcomplete hvalid
        rw [hattempt]
        exact (setTypeSize_structuresUsed _ _).trans createStructType_structuresUsed
      · rw [attempt_of_invalid hcomplete hvalid]
        exact createStructType_structuresUsed

/-- The declaration of a structure: its name and the type strings of its members. -/
def AST.declaration (ast : AST) (s : ℕ) : String × List String :=
  ((ast.structures s).name, (ast.structures s).members.map Member.typeString)

theorem attempts_declaration (h : TableInvariant ast) (order : List ℕ) :
    (attempts scopeId ast order).declaration t = ast.declaration t := by
  induction order generalizing ast with
  | nil => rfl
  | cons s order ih =>
      refine (ih (h.attempt s)).trans ?_
      unfold AST.declaration
      rw [attempt_members, (attempt_sameNames h s).name, createStructType_name]

theorem attempts_structuresUsed (order : List ℕ) :
    (attempts scopeId ast order).structuresUsed = ast.structuresUsed := by
  induction order generalizing ast with
  | nil => rfl
  | cons s order ih => exact ih.trans attempt_structuresUsed

/-! ## One round of the loop -/

theorem visit_of_complete (hcomplete : (pass.ast.structures s).complete = true) :
    pass.visit ignoreErrors scopeId s = pass := by
  simp [StructPass.visit, hcomplete]

/-- A structure whose member types are all found. -/
theorem visit_of_valid (ignoreErrors : Bool)
    (hincomplete : (pass.ast.structures s).complete = false)
    (hvalid : MembersValid (createStructType pass.ast scopeId s) scopeId s) :
    pass.visit ignoreErrors scopeId s =
      { failure := pass.failure
        changed := true
        ast := attempt scopeId pass.ast s
        reporter := pass.reporter } := by
  have hast := visit_ast ignoreErrors scopeId pass s
  have hresult : (generateStruct pass.ast pass.reporter ignoreErrors scopeId s).1 = true :=
    generateStruct_result hincomplete hvalid
  obtain ⟨last, hlast⟩ := (layoutMembers_ok_iff _ scopeId _ 0 1).mpr hvalid
  have hreporter : (generateStruct pass.ast pass.reporter ignoreErrors scopeId s).2.2 =
      pass.reporter := by
    rw [createStructType_members] at hlast
    simp [generateStruct, hincomplete, hlast]
  unfold StructPass.visit at hast ⊢
  simp only [hincomplete, Bool.false_eq_true, if_false] at hast ⊢
  rw [hast, hresult, hreporter]
  simp

/-- A structure with a member type that is not found. -/
theorem visit_of_invalid (ignoreErrors : Bool)
    (hincomplete : (pass.ast.structures s).complete = false)
    (hinvalid : ¬ MembersValid (createStructType pass.ast scopeId s) scopeId s) :
    ∃ member ∈ (pass.ast.structures s).members,
      ¬ ((createStructType pass.ast scopeId s).convertFullType member.typeString scopeId).Valid ∧
      pass.visit ignoreErrors scopeId s =
        { failure := true
          changed := pass.changed
          ast := attempt scopeId pass.ast s
          reporter := if ignoreErrors then pass.reporter else
            pass.reporter.err member.location ("Invalid type '" ++ member.typeString ++ "'.") } := by
  have hast := visit_ast ignoreErrors scopeId pass s
  have herror : ∀ members offset alignment last,
      (layoutMembers (createStructType pass.ast scopeId s) scopeId members offset alignment).2 =
        .error last → last ∈ members ∧
        ¬ ((createStructType pass.ast scopeId s).convertFullType last.typeString scopeId).Valid := by
    intro members
    induction members with
    | nil => simp [layoutMembers]
    | cons member rest ih =>
        intro offset alignment last hlast
        by_cases hfound : ((createStructType pass.ast scopeId s).convertFullType
            member.typeString scopeId).Valid
        · simp only [layoutMembers, hfound, if_true] at hlast
          obtain ⟨hmem, hnot⟩ := ih _ _ _ hlast
          exact ⟨List.mem_cons_of_mem _ hmem, hnot⟩
        · simp only [layoutMembers, hfound, if_false, Except.error.injEq] at hlast
          exact ⟨hlast ▸ List.mem_cons_self .., hlast ▸ hfound⟩
  cases hlast : (layoutMembers (createStructType pass.ast scopeId s) scopeId
      ((createStructType pass.ast scopeId s).structures s).members 0 1).2 with
  | ok last =>
      exact absurd ((layoutMembers_ok_iff _ _ _ _ _).mp ⟨last, hlast⟩) hinvalid
  | error member =>
      rw [createStructType_members] at hlast
      obtain ⟨hmem, hnot⟩ := herror _ _ _ _ hlast
      refine ⟨member, hmem, hnot, ?_⟩
      unfold StructPass.visit at hast ⊢
      simp only [hincomplete, Bool.false_eq_true, if_false] at hast ⊢
      rw [hast]
      cases ignoreErrors <;> simp [generateStruct, hincomplete, hlast]

/-! ## A whole pass -/

section Fold

variable {order : List ℕ}

theorem foldl_visit_failure_mono (hfailure : pass.failure = true) :
    (order.foldl (StructPass.visit ignoreErrors scopeId) pass).failure = true := by
  induction order generalizing pass with
  | nil => exact hfailure
  | cons s order ih =>
      refine ih ?_
      unfold StructPass.visit
      split
      · exact hfailure
      · simp [hfailure]

theorem foldl_visit_reporter (order : List ℕ) (pass : StructPass) :
    (order.foldl (StructPass.visit true scopeId) pass).reporter = pass.reporter := by
  induction order generalizing pass with
  | nil => rfl
  | cons s order ih =>
      refine (ih _).trans ?_
      cases hcomplete : (pass.ast.structures s).complete with
      | true => rw [visit_of_complete hcomplete]
      | false =>
          by_cases hvalid : MembersValid (createStructType pass.ast scopeId s) scopeId s
          · rw [visit_of_valid _ hcomplete hvalid]
          · obtain ⟨member, -, -, hvisit⟩ := visit_of_invalid true hcomplete hvalid
            rw [hvisit]
            rfl

/-- A pass that succeeds has completed every structure. -/
theorem complete_of_success (pass : StructPass) (h : TableInvariant pass.ast)
    (hsuccess : (order.foldl (StructPass.visit ignoreErrors scopeId) pass).failure = false) :
    ∀ s ∈ order, ((attempts scopeId pass.ast order).structures s).complete = true := by
  induction order generalizing pass with
  | nil => simp
  | cons s order ih =>
      rw [List.foldl_cons] at hsuccess
      have hrest := ih (pass.visit ignoreErrors scopeId s)
        (by rw [visit_ast]; exact h.attempt s) hsuccess
      rw [visit_ast] at hrest
      intro t ht
      rcases List.mem_cons.mp ht with rfl | ht
      · have hafter : ((attempt scopeId pass.ast t).structures t).complete = true := by
          cases hcomplete : (pass.ast.structures t).complete with
          | true => rwa [attempt_of_complete scopeId hcomplete]
          | false =>
              by_cases hvalid : MembersValid (createStructType pass.ast scopeId t) scopeId t
              · exact (attempt_completes hcomplete hvalid).1
              · obtain ⟨member, -, -, hvisit⟩ :=
                  visit_of_invalid ignoreErrors hcomplete hvalid
                rw [hvisit, foldl_visit_failure_mono rfl] at hsuccess
                cases hsuccess
        change ((attempts scopeId (attempt scopeId pass.ast t) order).structures t).complete = true
        rw [(extends_attempts (h.attempt t) order).complete t hafter]
        exact hafter
      · exact hrest t ht

/-- A pass that fails has left a structure incomplete. -/
theorem incomplete_of_failure (hnodup : order.Nodup)
    (hfailure : (order.foldl (StructPass.visit ignoreErrors scopeId) pass).failure = true) :
    pass.failure = true ∨
      ∃ s ∈ order, ((attempts scopeId pass.ast order).structures s).complete = false := by
  induction order generalizing pass with
  | nil => exact Or.inl hfailure
  | cons s order ih =>
      obtain ⟨hnot, hnodup⟩ := List.nodup_cons.mp hnodup
      have hkept : ((attempts scopeId pass.ast (s :: order)).structures s) =
          (attempt scopeId pass.ast s).structures s := attempts_structures_of_not_mem hnot
      rcases ih hnodup hfailure with hvisit | ⟨t, ht, hincomplete⟩
      · cases hcomplete : (pass.ast.structures s).complete with
        | true => rw [visit_of_complete hcomplete] at hvisit; exact Or.inl hvisit
        | false =>
            by_cases hvalid : MembersValid (createStructType pass.ast scopeId s) scopeId s
            · rw [visit_of_valid _ hcomplete hvalid] at hvisit
              exact Or.inl hvisit
            · refine Or.inr ⟨s, List.mem_cons_self .., ?_⟩
              rw [hkept, attempt_of_invalid hcomplete hvalid]
              simpa [laidOut] using hcomplete
      · rw [visit_ast] at hincomplete
        exact Or.inr ⟨t, List.mem_cons_of_mem _ ht, hincomplete⟩

/-- A pass that changes something completes a structure. -/
theorem completes_of_changed (pass : StructPass) (h : TableInvariant pass.ast)
    (hchanged : (order.foldl (StructPass.visit ignoreErrors scopeId) pass).changed = true) :
    pass.changed = true ∨ ∃ s ∈ order, (pass.ast.structures s).complete = false ∧
      ((attempts scopeId pass.ast order).structures s).complete = true := by
  induction order generalizing pass with
  | nil => exact Or.inl hchanged
  | cons s order ih =>
      have htable : TableInvariant (attempt scopeId pass.ast s) := h.attempt s
      rcases ih (pass.visit ignoreErrors scopeId s) (by rwa [visit_ast]) hchanged with
        hvisit | ⟨t, ht, hbefore, hafter⟩
      · cases hcomplete : (pass.ast.structures s).complete with
        | true => rw [visit_of_complete hcomplete] at hvisit; exact Or.inl hvisit
        | false =>
            by_cases hvalid : MembersValid (createStructType pass.ast scopeId s) scopeId s
            · have hnow := (attempt_completes hcomplete hvalid).1
              refine Or.inr ⟨s, List.mem_cons_self .., hcomplete, ?_⟩
              change ((attempts scopeId (attempt scopeId pass.ast s) order).structures s).complete =
                true
              rw [(extends_attempts htable order).complete s hnow]
              exact hnow
            · obtain ⟨member, -, -, heq⟩ :=
                visit_of_invalid ignoreErrors hcomplete hvalid
              rw [heq] at hvisit
              exact Or.inl hvisit
      · rw [visit_ast] at hbefore hafter
        refine Or.inr ⟨t, List.mem_cons_of_mem _ ht, ?_, hafter⟩
        by_contra hcomplete
        have hcomplete : (pass.ast.structures t).complete = true := by simpa using hcomplete
        rw [(extends_attempt h s).complete t hcomplete, hcomplete] at hbefore
        cases hbefore

/-- With the errors shown, a pass that fails reports one. -/
theorem errors_of_failure (order : List ℕ) (pass : StructPass) :
    pass.reporter.errors ≤
      (order.foldl (StructPass.visit false scopeId) pass).reporter.errors ∧
    ((order.foldl (StructPass.visit false scopeId) pass).failure = true →
      pass.failure = true ∨
      pass.reporter.errors < (order.foldl (StructPass.visit false scopeId) pass).reporter.errors) := by
  induction order generalizing pass with
  | nil => exact ⟨Nat.le_refl _, Or.inl⟩
  | cons s order ih =>
      obtain ⟨hle, hlt⟩ := ih (pass.visit false scopeId s)
      cases hcomplete : (pass.ast.structures s).complete with
      | true =>
          rw [List.foldl_cons, visit_of_complete hcomplete]
          exact ih pass
      | false =>
          by_cases hvalid : MembersValid (createStructType pass.ast scopeId s) scopeId s
          · rw [visit_of_valid _ hcomplete hvalid] at hle hlt
            rw [List.foldl_cons, visit_of_valid _ hcomplete hvalid]
            exact ⟨hle, hlt⟩
          · obtain ⟨member, -, -, hvisit⟩ :=
              visit_of_invalid false hcomplete hvalid
            have hmore : (pass.visit false scopeId s).reporter.errors = pass.reporter.errors + 1 := by
              rw [hvisit]
              simp
            rw [List.foldl_cons]
            exact ⟨by omega, fun _ => Or.inr (by omega)⟩

/-- Over tables in which no incomplete structure can be completed, a pass fails. -/
theorem failure_of_idle
    (hinvalid : ∀ s ∈ order, (pass.ast.structures s).complete = false →
      ¬ MembersValid (createStructType pass.ast scopeId s) scopeId s)
    (hincomplete : ∃ s ∈ order, (pass.ast.structures s).complete = false) :
    (order.foldl (StructPass.visit ignoreErrors scopeId) pass).failure = true := by
  induction order with
  | nil => simp at hincomplete
  | cons s order ih =>
      cases hcomplete : (pass.ast.structures s).complete with
      | true =>
          rw [List.foldl_cons, visit_of_complete hcomplete]
          refine ih (fun t ht => hinvalid t (List.mem_cons_of_mem _ ht)) ?_
          obtain ⟨t, ht, hfalse⟩ := hincomplete
          rcases List.mem_cons.mp ht with rfl | ht
          · rw [hcomplete] at hfalse
            cases hfalse
          · exact ⟨t, ht, hfalse⟩
      | false =>
          obtain ⟨member, -, -, hvisit⟩ := visit_of_invalid ignoreErrors hcomplete
            (hinvalid s (List.mem_cons_self ..) hcomplete)
          rw [List.foldl_cons, hvisit]
          exact foldl_visit_failure_mono rfl

end Fold

/-! ## `CheckStructs` -/

variable {reporter : Reporter} {imp : FileBody}

/-- The number of structures of the file that are not complete. -/
def incomplete (ast : AST) (imp : FileBody) : ℕ :=
  imp.structures.countP fun s => !(ast.structures s).complete

theorem incomplete_le {ast' : AST}
    (hmono : ∀ s ∈ imp.structures, (ast.structures s).complete = true →
      (ast'.structures s).complete = true) :
    incomplete ast' imp ≤ incomplete ast imp := by
  refine List.countP_mono_left fun s hs hfalse => ?_
  cases hcomplete : (ast.structures s).complete with
  | false => rfl
  | true => simp [hmono s hs hcomplete] at hfalse

theorem incomplete_lt {ast' : AST}
    (hmono : ∀ s ∈ imp.structures, (ast.structures s).complete = true →
      (ast'.structures s).complete = true)
    (hmore : ∃ s ∈ imp.structures, (ast.structures s).complete = false ∧
      (ast'.structures s).complete = true) :
    incomplete ast' imp < incomplete ast imp := by
  obtain ⟨s, hs, hbefore, hafter⟩ := hmore
  obtain ⟨first, last, hsplit⟩ := List.append_of_mem hs
  have hpart : ∀ part : List ℕ, (∀ t ∈ part, t ∈ imp.structures) →
      part.countP (fun s => !(ast'.structures s).complete) ≤
        part.countP fun s => !(ast.structures s).complete :=
    fun part hsub => List.countP_mono_left fun t ht hfalse => by
      cases hcomplete : (ast.structures t).complete with
      | false => rfl
      | true => simp [hmono t (hsub t ht) hcomplete] at hfalse
  have hfirst := hpart first fun t ht => by rw [hsplit]; simp [ht]
  have hlast := hpart last fun t ht => by rw [hsplit]; simp [ht]
  unfold incomplete
  rw [hsplit]
  simp only [List.countP_append, List.countP_cons, hbefore, hafter, Bool.not_true, Bool.not_false,
    Bool.false_eq_true, if_true, if_false]
  omega

theorem incomplete_lt_of_changed (h : TableInvariant ast)
    (hchanged : (checkStructs ast reporter imp ignoreErrors).changed = true) :
    incomplete (checkStructs ast reporter imp ignoreErrors).ast imp < incomplete ast imp := by
  rcases completes_of_changed { ast := ast, reporter := reporter } h hchanged with
    hfalse | hmore
  · cases hfalse
  · rw [checkStructs_ast]
    refine incomplete_lt (fun s _ hcomplete => ?_) hmore
    rw [(extends_attempts h imp.structures).complete s hcomplete]
    exact hcomplete

/-- After a second pass without a change the third one fails as well. -/
theorem failure_of_repeat (h : TableInvariant ast) (hnodup : imp.structures.Nodup)
    (hcreated : ∀ s ∈ imp.structures, (ast.structures s).createdType = true)
    (hfailure : (checkStructs ast reporter imp true).failure = true)
    (hchanged : (checkStructs ast reporter imp true).changed = false) (reporter' : Reporter) :
    (checkStructs (checkStructs ast reporter imp true).ast reporter' imp false).failure = true := by
  have hidle := (idle_of_unchanged hchanged).2
  obtain ⟨htypes, hmarks, hmembers⟩ := attempts_of_idle hcreated hidle
  have hleft := (incomplete_of_failure hnodup hfailure).resolve_left (by simp)
  rw [checkStructs_ast]
  refine failure_of_idle ?_ hleft
  intro s hs hincomplete
  have hnow : ((attempts imp.scopeId ast imp.structures).structures s).createdType = true :=
    created_attempts h (Or.inl hs)
  rw [hmarks] at hincomplete
  obtain ⟨hinvalid, hsame⟩ := hmembers s hs hincomplete
  rw [createStructType_of_created hnow]
  intro hvalid
  have hstrings : (ast.structures s).members.map Member.typeString =
      ((attempts imp.scopeId ast imp.structures).structures s).members.map Member.typeString := by
    rw [hsame, layoutMembers_typeStrings]
  refine hinvalid ((forall_typeString hstrings fun str =>
    (ast.convertFullType str imp.scopeId).Valid).mpr fun member hmember => ?_)
  rw [← htypes.convertFullType]
  exact hvalid member hmember

end TinCompiler
