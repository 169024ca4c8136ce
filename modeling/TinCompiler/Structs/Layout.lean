import TinCompiler.Scope

/-!
# The layout of structures

`generateStruct` and `CheckStructs` of `Generator.cpp`.  The type of a structure is
created on its first attempt and can be found from then on, with size `0` until
the attempt that resolves every member writes the final size.
-/

namespace TinCompiler

/-- The `aligned_size` of a member. -/
def alignedSize (size : ℕ) : ℕ :=
  if size = 2 then 2 else if size ≤ 4 then 4 else 8

/-- The loop of `generateStruct` over the members, from the current `offset` and
`alignment`.  It ends at the first member whose type is invalid, or with the offset
and the alignment after the last member; the members before have their type and
their offset set. -/
def layoutMembers (ast : AST) (scopeId : ScopeId) :
    List Member → ℕ → ℕ → List Member × Except Member (ℕ × ℕ)
  | [], offset, alignment => ([], .ok (offset, alignment))
  | member :: rest, offset, alignment =>
      let type := ast.convertFullType member.typeString scopeId
      if type.Valid then
        let size := ast.sizeOfType type
        let alignment := if alignment < alignedSize size then alignedSize size else alignment
        let offset := alignUp offset (alignedSize size)
        let laid := layoutMembers ast scopeId rest (offset + size) alignment
        ({ member with typeId := type, offset := offset } :: laid.1, laid.2)
      else (member :: rest, .error member)

/-- The first statement of an attempt: the type is created once. -/
def createStructType (ast : AST) (scopeId : ScopeId) (s : ℕ) : AST :=
  if (ast.structures s).createdType then ast
  else
    let created := ast.createType (ast.structures s).name scopeId
    { created.2 with
      typeInfos := Function.update created.2.typeInfos created.1
        { created.2.typeInfos created.1 with astStruct := some s }
      structures := Function.update ast.structures s
        { ast.structures s with createdType := true, typeInfo := some created.1 } }

/-- `typeInfo->size = size` -/
def AST.setTypeSize (ast : AST) (typeInfo : Option ℕ) (size : ℕ) : AST :=
  match typeInfo with
  | none => ast
  | some id => { ast with
      typeInfos := Function.update ast.typeInfos id { ast.typeInfos id with size := size } }

/-- The members as the loop of `generateStruct` leaves them. -/
def AST.setMembers (ast : AST) (s : ℕ) (members : List Member) : AST :=
  { ast with
    structures := Function.update ast.structures s
      { ast.structures s with members := members } }

/-- `astStruct->complete = true` -/
def AST.setComplete (ast : AST) (s : ℕ) : AST :=
  { ast with
    structures := Function.update ast.structures s
      { ast.structures s with complete := true } }

/-- `generateStruct` on the structure of index `s`: its result, the tables and the
reporter. -/
def generateStruct (ast : AST) (reporter : Reporter) (ignoreErrors : Bool) (scopeId : ScopeId)
    (s : ℕ) : Bool × AST × Reporter :=
  if (ast.structures s).complete then (true, ast, reporter)
  else
    let ast := createStructType ast scopeId s
    let laid := layoutMembers ast scopeId (ast.structures s).members 0 1
    let ast := ast.setMembers s laid.1
    match laid.2 with
    | .error member =>
        (false, ast,
          if ignoreErrors then reporter
          else reporter.err member.location ("Invalid type '" ++ member.typeString ++ "'."))
    | .ok (offset, alignment) =>
        (true,
          (ast.setTypeSize (ast.structures s).typeInfo (alignUp offset alignment)).setComplete s,
          reporter)

/-- What one call of `CheckStructs` leaves: its two results and the tables. -/
structure StructPass where
  failure : Bool := false
  changed : Bool := false
  ast : AST
  reporter : Reporter

/-- One round of the loop of `CheckStructs`. -/
def StructPass.visit (ignoreErrors : Bool) (scopeId : ScopeId) (pass : StructPass) (s : ℕ) :
    StructPass :=
  if (pass.ast.structures s).complete then pass
  else
    let result := generateStruct pass.ast pass.reporter ignoreErrors scopeId s
    { failure := pass.failure || !result.1
      changed := pass.changed || result.1
      ast := result.2.1
      reporter := result.2.2 }

/-- `CheckStructs`; it returns `!failure`. -/
def checkStructs (ast : AST) (reporter : Reporter) (imp : FileBody) (ignoreErrors : Bool) :
    StructPass :=
  imp.structures.foldl (StructPass.visit ignoreErrors imp.scopeId)
    { ast := ast, reporter := reporter }

/-! ## The tables after a number of attempts -/

/-- The tables after one call of `generateStruct`. -/
def attempt (scopeId : ScopeId) (ast : AST) (s : ℕ) : AST :=
  (generateStruct ast ({} : Reporter) true scopeId s).2.1

/-- The tables after a sequence of calls of `generateStruct`. -/
def attempts (scopeId : ScopeId) (ast : AST) (order : List ℕ) : AST :=
  order.foldl (attempt scopeId) ast

@[simp] theorem attempts_nil (scopeId : ScopeId) (ast : AST) : attempts scopeId ast [] = ast := rfl

theorem attempts_append (scopeId : ScopeId) (ast : AST) (first second : List ℕ) :
    attempts scopeId ast (first ++ second) =
      attempts scopeId (attempts scopeId ast first) second :=
  List.foldl_append

theorem attempts_snoc (scopeId : ScopeId) (ast : AST) (order : List ℕ) (s : ℕ) :
    attempts scopeId ast (order ++ [s]) = attempt scopeId (attempts scopeId ast order) s := by
  rw [attempts_append]
  rfl

/-- Neither the reporter nor `ignore_errors` has an effect on the tables. -/
theorem generateStruct_ast (ast : AST) (reporter : Reporter) (ignoreErrors : Bool)
    (scopeId : ScopeId) (s : ℕ) :
    (generateStruct ast reporter ignoreErrors scopeId s).2.1 = attempt scopeId ast s := by
  unfold attempt generateStruct
  split
  · rfl
  · generalize hlaid : layoutMembers (createStructType ast scopeId s) scopeId
      ((createStructType ast scopeId s).structures s).members 0 1 = laid
    obtain ⟨members, last⟩ := laid
    cases last <;> simp [hlaid]

theorem attempt_of_complete {ast : AST} {s : ℕ} (scopeId : ScopeId)
    (hcomplete : (ast.structures s).complete = true) : attempt scopeId ast s = ast := by
  simp [attempt, generateStruct, hcomplete]

theorem visit_ast (ignoreErrors : Bool) (scopeId : ScopeId) (pass : StructPass) (s : ℕ) :
    (pass.visit ignoreErrors scopeId s).ast = attempt scopeId pass.ast s := by
  unfold StructPass.visit
  split
  · next hcomplete => exact (attempt_of_complete scopeId hcomplete).symm
  · exact generateStruct_ast _ _ _ _ _

theorem foldl_visit_ast (ignoreErrors : Bool) (scopeId : ScopeId) (order : List ℕ) :
    ∀ pass : StructPass, (order.foldl (StructPass.visit ignoreErrors scopeId) pass).ast =
      attempts scopeId pass.ast order := by
  induction order with
  | nil => exact fun _ => rfl
  | cons s order ih =>
      intro pass
      rw [List.foldl_cons, ih, visit_ast]
      rfl

/-- A pass makes one attempt for each structure of the file. -/
theorem checkStructs_ast (ast : AST) (reporter : Reporter) (imp : FileBody)
    (ignoreErrors : Bool) :
    (checkStructs ast reporter imp ignoreErrors).ast =
      attempts imp.scopeId ast imp.structures :=
  foldl_visit_ast _ _ _ _

/-- The tables after `n` calls of `CheckStructs`. -/
def passes (imp : FileBody) (ast : AST) : ℕ → AST
  | 0 => ast
  | n + 1 => (checkStructs (passes imp ast n) ({} : Reporter) imp true).ast

theorem passes_eq_attempts (imp : FileBody) (ast : AST) (n : ℕ) :
    passes imp ast n =
      attempts imp.scopeId ast (List.replicate n imp.structures).flatten := by
  induction n with
  | zero => rfl
  | succ n ih =>
      rw [passes, checkStructs_ast, ih, List.replicate_succ', List.flatten_append,
        List.flatten_singleton, attempts_append]

/-! ## What one attempt can do -/

/-- Every member type of the structure is found. -/
def MembersValid (ast : AST) (scopeId : ScopeId) (s : ℕ) : Prop :=
  ∀ member ∈ (ast.structures s).members,
    (ast.convertFullType member.typeString scopeId).Valid

instance (ast : AST) (scopeId : ScopeId) (s : ℕ) : Decidable (MembersValid ast scopeId s) :=
  inferInstanceAs (Decidable (∀ _ ∈ _, _))

/-- The offset and the alignment the loop ends with when no type is invalid. -/
theorem layoutMembers_ok_iff (ast : AST) (scopeId : ScopeId) (members : List Member) :
    ∀ offset alignment, (∃ last, (layoutMembers ast scopeId members offset alignment).2 = .ok last) ↔
      ∀ member ∈ members, (ast.convertFullType member.typeString scopeId).Valid := by
  induction members with
  | nil => simp [layoutMembers]
  | cons member rest ih =>
      intro offset alignment
      by_cases hvalid : (ast.convertFullType member.typeString scopeId).Valid
      · simp only [layoutMembers, hvalid, if_true, ih, List.mem_cons, forall_eq_or_imp, true_and]
      · simp [layoutMembers, hvalid]

/-- The tables after the loop over the members. -/
def laidOut (scopeId : ScopeId) (ast : AST) (s : ℕ) : AST :=
  (createStructType ast scopeId s).setMembers s
    (layoutMembers (createStructType ast scopeId s) scopeId
      ((createStructType ast scopeId s).structures s).members 0 1).1

theorem attempt_of_invalid {scopeId : ScopeId} {ast : AST} {s : ℕ}
    (hincomplete : (ast.structures s).complete = false)
    (hinvalid : ¬ MembersValid (createStructType ast scopeId s) scopeId s) :
    attempt scopeId ast s = laidOut scopeId ast s := by
  unfold attempt generateStruct
  simp only [hincomplete, Bool.false_eq_true, if_false]
  generalize hlaid : layoutMembers (createStructType ast scopeId s) scopeId
    ((createStructType ast scopeId s).structures s).members 0 1 = laid
  cases hlast : laid.2 with
  | error member => simp only [laidOut, hlaid]
  | ok last =>
      rw [← hlaid] at hlast
      exact absurd ((layoutMembers_ok_iff _ _ _ _ _).mp ⟨last, hlast⟩) hinvalid

theorem attempt_of_valid {scopeId : ScopeId} {ast : AST} {s : ℕ}
    (hincomplete : (ast.structures s).complete = false)
    (hvalid : MembersValid (createStructType ast scopeId s) scopeId s) :
    ∃ last, (layoutMembers (createStructType ast scopeId s) scopeId
        ((createStructType ast scopeId s).structures s).members 0 1).2 = .ok last ∧
      attempt scopeId ast s =
        ((laidOut scopeId ast s).setTypeSize ((laidOut scopeId ast s).structures s).typeInfo
          (alignUp last.1 last.2)).setComplete s := by
  obtain ⟨last, hlast⟩ := (layoutMembers_ok_iff _ scopeId _ 0 1).mpr hvalid
  refine ⟨last, hlast, ?_⟩
  unfold attempt generateStruct
  simp only [hincomplete, Bool.false_eq_true, if_false, hlast]
  rfl

end TinCompiler
