import TinCompiler.Structs.Names

/-!
# The order of the declarations

After the last pass the layout of every structure is the layout computed from the
final sizes of its members (`Settled`).  `Progress` carries this through a run of
timely attempts.  Two orders of the same declarations then agree on sizes by
induction on containment, which is well founded, and so on all offsets.
-/

namespace TinCompiler

variable {base ast : AST} {imp : FileBody} {scopeId : ScopeId}

/-! ## The layout as a function of the types found -/

/-- The layout depends on which types are found and on their sizes. -/
theorem layoutMembers_offsets_congr {ast' : AST} {members : List Member} :
    ∀ {offset alignment : ℕ},
      (∀ member ∈ members, ((ast'.convertFullType member.typeString scopeId).Valid ↔
        (ast.convertFullType member.typeString scopeId).Valid) ∧
        ast'.sizeOfType (ast'.convertFullType member.typeString scopeId) =
          ast.sizeOfType (ast.convertFullType member.typeString scopeId)) →
      (layoutMembers ast' scopeId members offset alignment).1.map Member.offset =
        (layoutMembers ast scopeId members offset alignment).1.map Member.offset ∧
      (layoutMembers ast' scopeId members offset alignment).2 =
        (layoutMembers ast scopeId members offset alignment).2 := by
  induction members with
  | nil => exact fun _ => ⟨rfl, rfl⟩
  | cons member rest ih =>
      intro offset alignment hsame
      obtain ⟨hvalid, hsize⟩ := hsame member (by simp)
      have hrest := fun other hother => hsame other (List.mem_cons_of_mem _ hother)
      by_cases hfound : (ast.convertFullType member.typeString scopeId).Valid
      · simp only [layoutMembers, hfound, hvalid.mpr hfound, if_true, hsize, List.map_cons,
          List.cons.injEq, true_and]
        exact ih hrest
      · simp [layoutMembers, hfound, hvalid]

/-- With the same types and sizes the members themselves are the same. -/
theorem layoutMembers_congr {ast' : AST} {members : List Member} :
    ∀ {offset alignment : ℕ},
      (∀ member ∈ members,
        ast'.convertFullType member.typeString scopeId =
          ast.convertFullType member.typeString scopeId ∧
        ast'.sizeOfType (ast.convertFullType member.typeString scopeId) =
          ast.sizeOfType (ast.convertFullType member.typeString scopeId)) →
      layoutMembers ast' scopeId members offset alignment =
        layoutMembers ast scopeId members offset alignment := by
  induction members with
  | nil => exact fun _ => rfl
  | cons member rest ih =>
      intro offset alignment hsame
      obtain ⟨htype, hsize⟩ := hsame member (by simp)
      have hrest := fun other hother => hsame other (List.mem_cons_of_mem _ hother)
      simp only [layoutMembers, htype, hsize, ih hrest]

/-- Laying members out again, with at least the same types found, starts afresh. -/
theorem layoutMembers_again {ast' : AST}
    (hmono : ∀ str, (ast.convertFullType str scopeId).Valid →
      (ast'.convertFullType str scopeId).Valid) {members : List Member} :
    ∀ {offset alignment offset' alignment' : ℕ},
      layoutMembers ast' scopeId (layoutMembers ast scopeId members offset alignment).1
          offset' alignment' =
        layoutMembers ast' scopeId members offset' alignment' := by
  induction members with
  | nil => exact rfl
  | cons member rest ih =>
      intro offset alignment offset' alignment'
      by_cases hfound : (ast.convertFullType member.typeString scopeId).Valid
      · simp only [layoutMembers, hfound, hmono _ hfound, if_true, ih]
      · simp only [layoutMembers, hfound, if_false]

@[simp] theorem layoutMembers_typeStrings {members : List Member} :
    ∀ {offset alignment : ℕ},
      (layoutMembers ast scopeId members offset alignment).1.map Member.typeString =
        members.map Member.typeString := by
  induction members with
  | nil => exact rfl
  | cons member rest ih =>
      intro offset alignment
      by_cases hfound : (ast.convertFullType member.typeString scopeId).Valid
      · simp only [layoutMembers, hfound, if_true, List.map_cons, ih]
      · simp only [layoutMembers, hfound, if_false]

theorem forall_typeString {members members' : List Member}
    (hstrings : members'.map Member.typeString = members.map Member.typeString)
    (p : String → Prop) :
    (∀ member ∈ members', p member.typeString) ↔ ∀ member ∈ members, p member.typeString := by
  have hforall : ∀ list : List Member, (∀ member ∈ list, p member.typeString) ↔
      ∀ str ∈ list.map Member.typeString, p str := by simp
  rw [hforall, hforall, hstrings]

/-! ## What is known of a structure during a run -/

/-- The size of the type of a structure. -/
def AST.structSize (ast : AST) (s : ℕ) : ℕ :=
  match (ast.structures s).typeInfo with
  | none => 0
  | some id => (ast.typeInfos id).size

/-- A complete structure: its types are found with their sizes, and its offsets and its
size are those computed from them. -/
structure Done (base : AST) (imp : FileBody) (ast : AST) (s : ℕ) : Prop where
  found : ∀ member ∈ (base.structures s).members,
    (ast.convertFullType member.typeString imp.scopeId).Valid ∧
      ast.sizeOfType (ast.convertFullType member.typeString imp.scopeId) ≠ 0
  types : (ast.structures s).members.map Member.typeId =
    (base.structures s).members.map fun member =>
      ast.convertFullType member.typeString imp.scopeId
  offsets : (ast.structures s).members.map Member.offset =
    (layoutMembers ast imp.scopeId (base.structures s).members 0 1).1.map Member.offset
  size : ∃ last, (layoutMembers ast imp.scopeId (base.structures s).members 0 1).2 = .ok last ∧
    ast.structSize s = alignUp last.1 last.2

/-- A structure during a run: attempts that failed have changed nothing that a later
attempt reads. -/
structure Progress (base : AST) (imp : FileBody) (ast : AST) (s : ℕ) : Prop where
  strings : (ast.structures s).members.map Member.typeString =
    (base.structures s).members.map Member.typeString
  again : ∀ ast', (∀ str, (ast.convertFullType str imp.scopeId).Valid →
      (ast'.convertFullType str imp.scopeId).Valid) → (ast.structures s).complete = false →
    ∀ offset alignment, layoutMembers ast' imp.scopeId (ast.structures s).members offset alignment =
      layoutMembers ast' imp.scopeId (base.structures s).members offset alignment
  done : (ast.structures s).complete = true → Done base imp ast s

section Run

variable (hfresh : FreshFile base imp) (hnames : DistinctNames base imp)

include hfresh hnames

theorem Done.layout_eq {ast' : AST} {s : ℕ} (hdone : Done base imp ast s)
    (h : Grown base imp ast) (h' : Grown base imp ast') (hextends : Extends ast ast') :
    layoutMembers ast' imp.scopeId (base.structures s).members 0 1 =
      layoutMembers ast imp.scopeId (base.structures s).members 0 1 := by
  refine layoutMembers_congr fun member hmember => ?_
  obtain ⟨hvalid, hsize⟩ := hdone.found member hmember
  exact ⟨h.stable hfresh hnames h' hextends hvalid, hextends.sizeOfType hsize⟩

theorem Done.later {ast' : AST} {s : ℕ} (hdone : Done base imp ast s)
    (hcomplete : (ast.structures s).complete = true)
    (h : Grown base imp ast) (h' : Grown base imp ast') (hextends : Extends ast ast') :
    Done base imp ast' s := by
  have hstable : ∀ member ∈ (base.structures s).members,
      ast'.convertFullType member.typeString imp.scopeId =
        ast.convertFullType member.typeString imp.scopeId := fun member hmember =>
    h.stable hfresh hnames h' hextends (hdone.found member hmember).1
  have hlayout := hdone.layout_eq hfresh hnames h h' hextends
  have hsize : ast'.structSize s = ast.structSize s := by
    obtain ⟨id, hinfo⟩ := h.table.created s (h.table.complete_created s hcomplete)
    simp only [AST.structSize, hinfo, hextends.typeInfo s id hinfo,
      hextends.completeSize s id hcomplete hinfo]
  refine ⟨?_, ?_, ?_, ?_⟩
  · intro member hmember
    obtain ⟨hvalid, hne⟩ := hdone.found member hmember
    rw [hstable member hmember, hextends.sizeOfType hne]
    exact ⟨hvalid, hne⟩
  · rw [hextends.complete s hcomplete, hdone.types]
    exact List.map_congr_left fun member hmember => (hstable member hmember).symm
  · rw [hextends.complete s hcomplete, hlayout]
    exact hdone.offsets
  · rw [hlayout, hsize]
    exact hdone.size

/-- A timely attempt that finds every type completes the structure as it should be. -/
theorem done_attempt {s : ℕ} (hs : s ∈ imp.structures) (h : Grown base imp ast)
    (hprogress : Progress base imp ast s) (hincomplete : (ast.structures s).complete = false)
    (hvalid : MembersValid (createStructType ast imp.scopeId s) imp.scopeId s)
    (htimely : Timely imp.scopeId ast s) :
    Done base imp (attempt imp.scopeId ast s) s := by
  have hcreated := h.createStructType hnames hs
  have hafter := h.attempt hnames hs
  have hcreate : Extends ast (createStructType ast imp.scopeId s) :=
    extends_createStructType h.table s
  obtain ⟨last, hlast, hattempt⟩ := attempt_of_valid hincomplete hvalid
  have hextends : Extends (createStructType ast imp.scopeId s) (attempt imp.scopeId ast s) := by
    rw [hattempt]
    refine (extends_setMembers (by simpa using hincomplete) _).trans
      (extends_finish (h.table.laidOut s) ?_ _)
    simpa [laidOut] using hincomplete
  have hmono : ∀ str, (ast.convertFullType str imp.scopeId).Valid →
      ((createStructType ast imp.scopeId s).convertFullType str imp.scopeId).Valid :=
    fun str hfound => by rwa [h.stable hfresh hnames hcreated hcreate hfound]
  have hagain := hprogress.again _ hmono hincomplete 0 1
  have hfound : ∀ member ∈ (base.structures s).members,
      ((createStructType ast imp.scopeId s).convertFullType member.typeString imp.scopeId).Valid := by
    refine (forall_typeString hprogress.strings fun str =>
      ((createStructType ast imp.scopeId s).convertFullType str imp.scopeId).Valid).mp ?_
    simpa [MembersValid] using hvalid
  have hsized : ∀ member ∈ (base.structures s).members, (createStructType ast imp.scopeId s).sizeOfType
      ((createStructType ast imp.scopeId s).convertFullType member.typeString imp.scopeId) ≠ 0 := by
    refine (forall_typeString hprogress.strings fun str =>
      (createStructType ast imp.scopeId s).sizeOfType
        ((createStructType ast imp.scopeId s).convertFullType str imp.scopeId) ≠ 0).mp ?_
    simpa using htimely hvalid
  have hstable : ∀ member ∈ (base.structures s).members,
      (attempt imp.scopeId ast s).convertFullType member.typeString imp.scopeId =
        (createStructType ast imp.scopeId s).convertFullType member.typeString imp.scopeId :=
    fun member hmember => hcreated.stable hfresh hnames hafter hextends (hfound member hmember)
  have hlayout : layoutMembers (attempt imp.scopeId ast s) imp.scopeId (base.structures s).members 0 1 =
      layoutMembers (createStructType ast imp.scopeId s) imp.scopeId
        (base.structures s).members 0 1 :=
    layoutMembers_congr fun member hmember =>
      ⟨hstable member hmember, hextends.sizeOfType (hsized member hmember)⟩
  refine ⟨?_, ?_, ?_, ?_⟩
  · intro member hmember
    rw [hstable member hmember, hextends.sizeOfType (hsized member hmember)]
    exact ⟨hfound member hmember, hsized member hmember⟩
  · have hmap : ∀ list : List Member, (list.map fun member =>
        (createStructType ast imp.scopeId s).convertFullType member.typeString imp.scopeId) =
          (list.map Member.typeString).map fun str =>
            (createStructType ast imp.scopeId s).convertFullType str imp.scopeId := by simp
    rw [(attempt_completes hincomplete hvalid).2, hmap, hprogress.strings, ← hmap]
    exact List.map_congr_left fun member hmember => (hstable member hmember).symm
  · rw [hlayout, ← hagain, hattempt]
    simp [laidOut]
  · refine ⟨last, ?_, ?_⟩
    · rw [hlayout, ← hagain]
      simpa using hlast
    · obtain ⟨id, hinfo⟩ := hcreated.table.created s createStructType_createdType
      have hlaid : ((laidOut imp.scopeId ast s).structures s).typeInfo = some id := by
        simpa [laidOut] using hinfo
      rw [hattempt]
      simp [AST.structSize, hlaid, setTypeSize_typeInfos]

theorem Progress.attempt {s t : ℕ} (hs : s ∈ imp.structures) (h : Grown base imp ast)
    (hprogress : Progress base imp ast t) (htimely : Timely imp.scopeId ast s ∨
      (ast.structures s).complete = true) :
    Progress base imp (attempt imp.scopeId ast s) t := by
  have hafter := h.attempt hnames hs
  have hextends : Extends ast (TinCompiler.attempt imp.scopeId ast s) := extends_attempt h.table s
  cases hcomplete : (ast.structures s).complete with
  | true => rwa [attempt_of_complete imp.scopeId hcomplete]
  | false =>
      by_cases heq : t = s
      · subst heq
        have hcreated := h.createStructType hnames hs
        by_cases hvalid : MembersValid (createStructType ast imp.scopeId t) imp.scopeId t
        · have hdone := done_attempt hfresh hnames hs h hprogress hcomplete hvalid
            (by simpa [hcomplete] using htimely)
          have hstrings : ((TinCompiler.attempt imp.scopeId ast t).structures t).members.map
              Member.typeString = (base.structures t).members.map Member.typeString := by
            obtain ⟨last, -, hattempt⟩ := attempt_of_valid hcomplete hvalid
            rw [hattempt]
            simpa [laidOut] using hprogress.strings
          refine ⟨hstrings, fun _ _ hincomplete => ?_, fun _ => hdone⟩
          rw [(attempt_completes hcomplete hvalid).1] at hincomplete
          cases hincomplete
        · -- a failed attempt is made afresh
          have hsame := attempt_of_invalid hcomplete hvalid
          rw [hsame]
          refine ⟨by simpa [laidOut] using hprogress.strings, ?_, ?_⟩
          · intro ast' hmono _ offset alignment
            have hcreate : Extends ast (createStructType ast imp.scopeId t) :=
              extends_createStructType h.table t
            have hlaid : Extends (createStructType ast imp.scopeId t)
                (laidOut imp.scopeId ast t) :=
              extends_setMembers (by simpa using hcomplete) _
            have hgrown : Grown base imp (laidOut imp.scopeId ast t) := hsame ▸ hafter
            have hfrom : ∀ str,
                ((createStructType ast imp.scopeId t).convertFullType str imp.scopeId).Valid →
                (ast'.convertFullType str imp.scopeId).Valid := fun str hfound =>
              hmono str (by rwa [hcreated.stable hfresh hnames hgrown hlaid hfound])
            have hmembers : ((laidOut imp.scopeId ast t).structures t).members =
                (layoutMembers (createStructType ast imp.scopeId t) imp.scopeId
                  (ast.structures t).members 0 1).1 := by
              simp [laidOut]
            rw [hmembers, layoutMembers_again hfrom]
            refine hprogress.again ast' (fun str hfound => hfrom str ?_) hcomplete offset alignment
            rwa [h.stable hfresh hnames hcreated hcreate hfound]
          · intro hdone
            simp [laidOut, hcomplete] at hdone
      · have hstructure := @attempt_structures_of_ne ast imp.scopeId s t heq
        refine ⟨by rw [hstructure]; exact hprogress.strings, ?_, ?_⟩
        · intro ast' hmono hincomplete
          rw [hstructure] at hincomplete ⊢
          refine hprogress.again ast' (fun str hfound => hmono str ?_) hincomplete
          rwa [h.stable hfresh hnames hafter hextends hfound]
        · intro hdone
          rw [hstructure] at hdone
          exact (hprogress.done hdone).later hfresh hnames hdone h hafter hextends

omit hnames in
theorem progress_base (s : ℕ) (hs : s ∈ imp.structures) : Progress base imp base s := by
  refine ⟨rfl, fun _ _ _ _ _ => rfl, fun hcomplete => ?_⟩
  have hcreated := hfresh.tables.complete_created s hcomplete
  rw [hfresh.uncreated s hs] at hcreated
  cases hcreated

theorem progress_attempts {order : List ℕ} (horder : ∀ s ∈ order, s ∈ imp.structures)
    (htimely : TimelyRun imp.scopeId base order) {t : ℕ} (ht : t ∈ imp.structures) :
    Progress base imp (attempts imp.scopeId base order) t := by
  induction order using List.reverseRecOn with
  | nil => exact progress_base hfresh t ht
  | append_singleton order s ih =>
      have hbefore : ∀ u ∈ order, u ∈ imp.structures := fun u hu => horder u (by simp [hu])
      rw [attempts_snoc]
      refine (ih hbefore htimely.of_append).attempt hfresh hnames (horder s (by simp))
        (hfresh.grown.attempts hnames hbefore) ?_
      cases hcomplete : ((attempts imp.scopeId base order).structures s).complete with
      | true => exact Or.inr rfl
      | false => exact Or.inl (htimely order s [] rfl hcomplete)

end Run

/-! ## The last pass -/

/-- Equal type entries and scopes: every type string means the same. -/
structure SameTypes (ast ast' : AST) : Prop where
  typeInfos : ast'.typeInfos = ast.typeInfos
  scopes : ast'.scopes = ast.scopes
  scopesUsed : ast'.scopesUsed = ast.scopesUsed

namespace SameTypes

variable {ast' : AST}

theorem trans {ast'' : AST} (h : SameTypes ast ast') (h' : SameTypes ast' ast'') :
    SameTypes ast ast'' :=
  ⟨h'.typeInfos.trans h.typeInfos, h'.scopes.trans h.scopes, h'.scopesUsed.trans h.scopesUsed⟩

theorem convertFullType (h : SameTypes ast ast') (str : String) :
    ast'.convertFullType str scopeId = ast.convertFullType str scopeId := by
  have hfind : ast'.findType (AST.splitPointers str).1 scopeId =
      ast.findType (AST.splitPointers str).1 scopeId := by
    refine AST.search_congr h.scopesUsed ?_ ?_ ?_ ?_ _ <;> simp [h.scopes]
  simp only [AST.convertFullType, hfind, h.typeInfos]

theorem sizeOfType (h : SameTypes ast ast') (type : TypeId) :
    ast'.sizeOfType type = ast.sizeOfType type := by
  simp only [AST.sizeOfType, AST.getType, h.typeInfos]

theorem layoutMembers (h : SameTypes ast ast') (members : List Member) (offset alignment : ℕ) :
    layoutMembers ast' scopeId members offset alignment =
      layoutMembers ast scopeId members offset alignment :=
  layoutMembers_congr fun _ _ => ⟨h.convertFullType _, h.sizeOfType _⟩

end SameTypes

/-- No attempt of the pass succeeds. -/
def Idle (scopeId : ScopeId) : AST → List ℕ → Prop
  | _, [] => True
  | ast, s :: order =>
      ((ast.structures s).complete = false →
        ¬ MembersValid (createStructType ast scopeId s) scopeId s) ∧
      Idle scopeId (attempt scopeId ast s) order

theorem generateStruct_result {reporter : Reporter} {ignoreErrors : Bool} {s : ℕ}
    (hincomplete : (ast.structures s).complete = false)
    (hvalid : MembersValid (createStructType ast scopeId s) scopeId s) :
    (generateStruct ast reporter ignoreErrors scopeId s).1 = true := by
  obtain ⟨last, hlast⟩ := (layoutMembers_ok_iff _ scopeId _ 0 1).mpr hvalid
  rw [createStructType_members] at hlast
  simp [generateStruct, hincomplete, hlast]

theorem idle_of_unchanged {ignoreErrors : Bool} {order : List ℕ} :
    ∀ {pass : StructPass},
      (order.foldl (StructPass.visit ignoreErrors scopeId) pass).changed = false →
      pass.changed = false ∧ Idle scopeId pass.ast order := by
  induction order with
  | nil => exact fun h => ⟨h, trivial⟩
  | cons s order ih =>
      intro pass hunchanged
      obtain ⟨hvisit, hidle⟩ := @ih (pass.visit ignoreErrors scopeId s) hunchanged
      rw [visit_ast] at hidle
      unfold StructPass.visit at hvisit
      split at hvisit
      · next hcomplete =>
          exact ⟨hvisit, fun hincomplete => by simp [hcomplete] at hincomplete, hidle⟩
      · simp only [Bool.or_eq_false_iff] at hvisit
        refine ⟨hvisit.1, fun hincomplete hvalid => ?_, hidle⟩
        rw [generateStruct_result hincomplete hvalid] at hvisit
        cases hvisit.2

theorem attempts_structures_of_not_mem {order : List ℕ} {t : ℕ} :
    ∀ {ast : AST}, t ∉ order → (attempts scopeId ast order).structures t = ast.structures t := by
  induction order with
  | nil => exact fun _ => rfl
  | cons s order ih =>
      intro ast hnot
      simp only [List.mem_cons, not_or] at hnot
      exact (ih hnot.2).trans (attempt_structures_of_ne hnot.1)

/-- A pass in which no attempt succeeds, over structures whose types exist: only the
members of incomplete structures change, to the layout that stops at a missing type. -/
theorem attempts_of_idle {order : List ℕ} :
    ∀ {ast : AST}, (∀ s ∈ order, (ast.structures s).createdType = true) →
      Idle scopeId ast order →
      SameTypes ast (attempts scopeId ast order) ∧
      (∀ t, ((attempts scopeId ast order).structures t).complete = (ast.structures t).complete) ∧
      ∀ t ∈ order, (ast.structures t).complete = false →
        ¬ MembersValid ast scopeId t ∧
        ((attempts scopeId ast order).structures t).members =
          (layoutMembers ast scopeId (ast.structures t).members 0 1).1 := by
  induction order with
  | nil => exact fun _ _ => ⟨⟨rfl, rfl, rfl⟩, fun _ => rfl, by simp⟩
  | cons s order ih =>
      intro ast hcreated hidle
      obtain ⟨hfails, hidle⟩ := hidle
      rw [createStructType_of_created (hcreated s (by simp))] at hfails
      have hrest : ∀ t ∈ order, (ast.structures t).createdType = true :=
        fun t ht => hcreated t (List.mem_cons_of_mem _ ht)
      cases hcomplete : (ast.structures s).complete with
      | true =>
          have hsame : attempts scopeId ast (s :: order) = attempts scopeId ast order :=
            congrArg (attempts scopeId · order) (attempt_of_complete scopeId hcomplete)
          rw [attempt_of_complete scopeId hcomplete] at hidle
          obtain ⟨htypes, hmarks, hmembers⟩ := ih hrest hidle
          rw [hsame]
          refine ⟨htypes, hmarks, fun t ht hincomplete => ?_⟩
          rcases List.mem_cons.mp ht with rfl | ht
          · rw [hcomplete] at hincomplete
            cases hincomplete
          · exact hmembers t ht hincomplete
      | false =>
          have hinvalid := hfails hcomplete
          set laid : AST :=
            ast.setMembers s (layoutMembers ast scopeId (ast.structures s).members 0 1).1 with hlaid
          have hattempt : attempt scopeId ast s = laid := by
            rw [attempt_of_invalid hcomplete, laidOut,
              createStructType_of_created (hcreated s (by simp))]
            rwa [createStructType_of_created (hcreated s (by simp))]
          have hsame : attempts scopeId ast (s :: order) = attempts scopeId laid order :=
            congrArg (attempts scopeId · order) hattempt
          have hfirst : SameTypes ast laid := ⟨rfl, rfl, rfl⟩
          rw [hattempt] at hidle
          obtain ⟨htypes, hmarks, hmembers⟩ := ih (fun t ht => by simpa [hlaid] using hrest t ht) hidle
          rw [hsame]
          refine ⟨hfirst.trans htypes, fun t => (hmarks t).trans (by simp [hlaid]),
            fun t ht hincomplete => ?_⟩
          have hincomplete' : (laid.structures t).complete = false := by simpa [hlaid] using hincomplete
          by_cases heq : t = s
          · subst heq
            refine ⟨hinvalid, ?_⟩
            by_cases hmem : t ∈ order
            · rw [(hmembers t hmem hincomplete').2, hfirst.layoutMembers]
              simp only [hlaid, setMembers_structures_self, layoutMembers_again fun _ h => h]
            · rw [attempts_structures_of_not_mem hmem]
              simp [hlaid]
          · have hmem := (List.mem_cons.mp ht).resolve_left heq
            obtain ⟨hnot, heqs⟩ := hmembers t hmem hincomplete'
            have hother : laid.structures t = ast.structures t :=
              setMembers_structures_of_ne _ _ _ heq
            rw [heqs, hfirst.layoutMembers, hother]
            refine ⟨fun hvalid => hnot fun member hmember => ?_, rfl⟩
            rw [hfirst.convertFullType]
            exact hvalid member (hother ▸ hmember)

theorem created_attempts (h : TableInvariant ast) {order : List ℕ} {s : ℕ}
    (hs : s ∈ order ∨ (ast.structures s).createdType = true) :
    ((attempts scopeId ast order).structures s).createdType = true := by
  induction order generalizing ast with
  | nil => simpa using hs
  | cons t order ih =>
      refine ih (h.attempt t) ?_
      rw [(attempt_sameNames h t).createdType]
      rcases hs with hs | hs
      · rcases List.mem_cons.mp hs with rfl | hs
        · exact Or.inr createStructType_createdType
        · exact Or.inl hs
      · exact Or.inr (createdType_createStructType hs)

/-- The attempts of `n` passes. -/
def passOrder (imp : FileBody) (n : ℕ) : List ℕ := (List.replicate n imp.structures).flatten

theorem mem_of_mem_passOrder {n s : ℕ} (hs : s ∈ passOrder imp n) : s ∈ imp.structures := by
  obtain ⟨list, hlist, hmem⟩ := List.mem_flatten.mp hs
  rwa [List.eq_of_mem_replicate hlist] at hmem

theorem passOrder_succ (n : ℕ) : passOrder imp (n + 1) = passOrder imp n ++ imp.structures := by
  rw [passOrder, passOrder, List.replicate_succ', List.flatten_append, List.flatten_singleton]

theorem mem_passOrder {n s : ℕ} (hs : s ∈ imp.structures) : s ∈ passOrder imp (n + 1) := by
  rw [passOrder_succ]
  exact List.mem_append_right _ hs

/-- After at least one pass the next one completes nothing: where the compiler stops,
after a pass that succeeds or after two that change nothing. -/
def Final (imp : FileBody) (base : AST) (n : ℕ) : Prop :=
  1 ≤ n ∧ (checkStructs (passes imp base n) ({} : Reporter) imp true).changed = false

instance (imp : FileBody) (base : AST) (n : ℕ) : Decidable (Final imp base n) :=
  inferInstanceAs (Decidable (_ ∧ _))

/-- The layout of a structure is the one computed from the final sizes. -/
structure Settled (base : AST) (imp : FileBody) (ast : AST) (s : ℕ) : Prop where
  complete_iff : (ast.structures s).complete = true ↔
    ∀ member ∈ (base.structures s).members,
      (ast.convertFullType member.typeString imp.scopeId).Valid
  types : (ast.structures s).complete = true →
    (ast.structures s).members.map Member.typeId =
      (base.structures s).members.map fun member =>
        ast.convertFullType member.typeString imp.scopeId
  offsets : (ast.structures s).members.map Member.offset =
    (layoutMembers ast imp.scopeId (base.structures s).members 0 1).1.map Member.offset
  size : (ast.structures s).complete = true →
    ∃ last, (layoutMembers ast imp.scopeId (base.structures s).members 0 1).2 = .ok last ∧
      ast.structSize s = alignUp last.1 last.2

theorem settled_of_final (hfresh : FreshFile base imp) (hnames : DistinctNames base imp) {n : ℕ}
    (hfinal : Final imp base n)
    (htimely : TimelyRun imp.scopeId base (passOrder imp (n + 1))) {s : ℕ}
    (hs : s ∈ imp.structures) : Settled base imp (passes imp base (n + 1)) s := by
  obtain ⟨hn, hunchanged⟩ := hfinal
  have hlast : passes imp base (n + 1) =
      attempts imp.scopeId (passes imp base n) imp.structures := checkStructs_ast _ _ _ _
  have hpasses : passes imp base n = attempts imp.scopeId base (passOrder imp n) :=
    passes_eq_attempts imp base n
  have hcreated : ∀ t ∈ imp.structures, ((passes imp base n).structures t).createdType = true := by
    intro t ht
    rw [hpasses]
    refine created_attempts hfresh.tables (Or.inl ?_)
    obtain ⟨m, rfl⟩ := Nat.exists_eq_add_of_le' hn
    exact mem_passOrder ht
  have hidle : Idle imp.scopeId (passes imp base n) imp.structures :=
    (idle_of_unchanged hunchanged).2
  obtain ⟨htypes, hmarks, hmembers⟩ := attempts_of_idle hcreated hidle
  rw [← hlast] at htypes hmarks hmembers
  have hbefore : Progress base imp (passes imp base n) s := by
    rw [hpasses]
    rw [passOrder_succ] at htimely
    exact progress_attempts hfresh hnames (fun _ => mem_of_mem_passOrder) htimely.of_append hs
  have hafter : Progress base imp (passes imp base (n + 1)) s := by
    rw [passes_eq_attempts]
    exact progress_attempts hfresh hnames (fun _ => mem_of_mem_passOrder) htimely hs
  cases hcomplete : ((passes imp base (n + 1)).structures s).complete with
  | true =>
      have hdone := hafter.done hcomplete
      exact ⟨iff_of_true hcomplete fun member hmember => (hdone.found member hmember).1,
        fun _ => hdone.types, hdone.offsets, fun _ => hdone.size⟩
  | false =>
      have hincomplete : ((passes imp base n).structures s).complete = false := by
        rw [← hmarks s, hcomplete]
      obtain ⟨hinvalid, hlaid⟩ := hmembers s hs hincomplete
      have hagain := hbefore.again (passes imp base n) (fun _ h => h) hincomplete 0 1
      refine ⟨?_, by simp [hcomplete], ?_, by simp [hcomplete]⟩
      · refine iff_of_false (by simp [hcomplete]) fun hvalid => hinvalid ?_
        refine (forall_typeString hbefore.strings fun str =>
          ((passes imp base n).convertFullType str imp.scopeId).Valid).mpr ?_
        intro member hmember
        rw [← htypes.convertFullType]
        exact hvalid member hmember
      · rw [hlaid, hagain, htypes.layoutMembers]

end TinCompiler
