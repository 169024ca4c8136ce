import TinCompiler.Structs.Order

/-!
# Completion is sound, whatever the order

Two runs over one set of declarations, in two orders, end with the same complete
structures, the same sizes and the same offsets, if every attempt of both is timely.
An attempt that is not timely completes a structure around a member of size `0`:
`CheckStructs` makes one on three structures in the wrong order.
-/

namespace TinCompiler

variable {base ast ast' : AST} {imp : FileBody} {scopeId : ScopeId}

/-! ## Two orders of the same declarations -/

theorem Grown.of_perm {imp' : FileBody} (h : Grown base imp' ast)
    (hperm : imp'.structures.Perm imp.structures) (hscope : imp'.scopeId = imp.scopeId) :
    Grown base imp ast := by
  refine ⟨h.table, h.typesUsed, h.name, h.scopesUsed, hscope ▸ h.other, hscope ▸ h.shared,
    hscope ▸ h.scopeId, hscope ▸ h.parent, h.old, ?_, ?_⟩
  · intro s hs
    rw [← hscope]
    exact h.own s (hperm.mem_iff.mpr hs)
  · intro name hother
    rw [← hscope]
    exact h.map name fun s hs => hother s (hperm.mem_iff.mp hs)

theorem FreshFile.of_perm {imp' : FileBody} (h : FreshFile base imp)
    (hperm : imp'.structures.Perm imp.structures) : FreshFile base imp' :=
  ⟨h.tables, h.founded, h.void, h.mapped, fun s hs => h.uncreated s (hperm.mem_iff.mp hs)⟩

theorem DistinctNames.of_perm {imp' : FileBody} (h : DistinctNames base imp)
    (hperm : imp'.structures.Perm imp.structures) (hscope : imp'.scopeId = imp.scopeId) :
    DistinctNames base imp' :=
  ⟨fun s hs t ht => h.distinct s (hperm.mem_iff.mp hs) t (hperm.mem_iff.mp ht),
    fun s hs => hscope ▸ h.unknown s (hperm.mem_iff.mp hs)⟩

theorem Settled.of_perm {imp' : FileBody} {s : ℕ} (h : Settled base imp' ast s)
    (hscope : imp'.scopeId = imp.scopeId) : Settled base imp ast s :=
  ⟨hscope ▸ h.complete_iff, hscope ▸ h.types, hscope ▸ h.offsets, hscope ▸ h.size⟩

section TwoRuns

variable (hfresh : FreshFile base imp) (hnames : DistinctNames base imp)
  (h : Grown base imp ast) (h' : Grown base imp ast')
  (hcreated : ∀ s ∈ imp.structures, (ast.structures s).createdType = true)
  (hcreated' : ∀ s ∈ imp.structures, (ast'.structures s).createdType = true)

include hfresh hnames h h' hcreated hcreated'

/-- In both tables a type string means the same structure of the file, or what it meant
before. -/
theorem convertFullType_cases_both (str : String) :
    (∃ s ∈ imp.structures, (base.structures s).name = (AST.splitPointers str).1 ∧ ∃ id id',
      (ast.structures s).typeInfo = some id ∧ (ast'.structures s).typeInfo = some id' ∧
      base.typesUsed ≤ id ∧ base.typesUsed ≤ id' ∧
      ast.convertFullType str imp.scopeId = ⟨id, typeLevel str⟩ ∧
      ast'.convertFullType str imp.scopeId = ⟨id', typeLevel str⟩) ∨
    (ast.convertFullType str imp.scopeId = base.convertFullType str imp.scopeId ∧
      ast'.convertFullType str imp.scopeId = base.convertFullType str imp.scopeId) := by
  rcases h.convertFullType_cases hfresh str with
    ⟨s, hs, hname, id, hinfo, hle, htype⟩ | ⟨hother, htype⟩
  · rcases h'.convertFullType_cases hfresh str with
      ⟨t, ht, hname', id', hinfo', hle', htype'⟩ | ⟨hother', -⟩
    · obtain rfl := hnames.distinct t ht s hs (hname'.trans hname.symm)
      exact Or.inl ⟨t, ht, hname', id, id', hinfo, hinfo', hle, hle', htype, htype'⟩
    · exact absurd hname (hother' s hs (hcreated' s hs))
  · rcases h'.convertFullType_cases hfresh str with
      ⟨t, ht, hname', -⟩ | ⟨-, htype'⟩
    · exact absurd hname' (hother t ht (hcreated t ht))
    · exact Or.inr ⟨htype, htype'⟩

theorem same_valid (str : String) :
    (ast'.convertFullType str imp.scopeId).Valid ↔ (ast.convertFullType str imp.scopeId).Valid := by
  rcases convertFullType_cases_both hfresh hnames h h' hcreated hcreated' str with
    ⟨s, -, -, id, id', -, -, hle, hle', htype, htype'⟩ | ⟨htype, htype'⟩
  · rw [htype, htype']
    exact iff_of_true (Grown.valid_of_own hfresh hle') (Grown.valid_of_own hfresh hle)
  · rw [htype, htype']

/-- A type string has one size in both tables if the structure it names has. -/
theorem same_size (str : String)
    (hsizes : ∀ s ∈ imp.structures, (base.structures s).name = (AST.splitPointers str).1 →
      typeLevel str = 0 → ast'.structSize s = ast.structSize s) :
    ast'.sizeOfType (ast'.convertFullType str imp.scopeId) =
      ast.sizeOfType (ast.convertFullType str imp.scopeId) := by
  rcases convertFullType_cases_both hfresh hnames h h' hcreated hcreated' str with
    ⟨s, hs, hname, id, id', hinfo, hinfo', -, -, htype, htype'⟩ | ⟨htype, htype'⟩
  · rw [htype, htype']
    by_cases hlevel : typeLevel str = 0
    · simpa [AST.sizeOfType, AST.getType, hlevel, AST.structSize, hinfo, hinfo'] using
        hsizes s hs hname hlevel
    · simp [AST.sizeOfType, hlevel]
  · have hlt := hfresh.index_lt str imp.scopeId
    rw [htype, htype']
    simp only [AST.sizeOfType, AST.getType, h.old _ hlt, h'.old _ hlt]

variable (hsettled : ∀ s ∈ imp.structures, Settled base imp ast s)
  (hsettled' : ∀ s ∈ imp.structures, Settled base imp ast' s)

include hsettled hsettled'

theorem same_complete {s : ℕ} (hs : s ∈ imp.structures) :
    (ast'.structures s).complete = (ast.structures s).complete := by
  rw [Bool.eq_iff_iff, (hsettled s hs).complete_iff, (hsettled' s hs).complete_iff]
  exact forall_congr' fun member => forall_congr' fun _ =>
    same_valid hfresh hnames h h' hcreated hcreated' member.typeString

/-- By induction on containment: the sizes of the members are the same, so the size is. -/
theorem same_structSize_of_complete (hfounded : Founded ast) {s : ℕ} (hs : s ∈ imp.structures)
    (hcomplete : (ast.structures s).complete = true) :
    ast'.structSize s = ast.structSize s := by
  have hacc := hfounded.acc s hcomplete
  induction hacc with
  | intro s _ ih =>
      have hcomplete' : (ast'.structures s).complete = true := by
        rw [same_complete hfresh hnames h h' hcreated hcreated' hsettled hsettled' hs, hcomplete]
      obtain ⟨last, hlast, hsize⟩ := (hsettled s hs).size hcomplete
      obtain ⟨last', hlast', hsize'⟩ := (hsettled' s hs).size hcomplete'
      have hlayout : (layoutMembers ast' imp.scopeId (base.structures s).members 0 1).2 =
          (layoutMembers ast imp.scopeId (base.structures s).members 0 1).2 := by
        refine (layoutMembers_offsets_congr fun member hmember => ⟨?_, ?_⟩).2
        · exact same_valid hfresh hnames h h' hcreated hcreated' member.typeString
        · refine same_size hfresh hnames h h' hcreated hcreated' member.typeString ?_
          intro t ht hname hlevel
          have hholds : Holds ast s t := by
            obtain ⟨id, hinfo⟩ := h.table.created t (hcreated t ht)
            obtain ⟨-, htypeId, hmap⟩ := h.own t ht id hinfo
            rw [hname] at hmap
            have htype : ast.convertFullType member.typeString imp.scopeId = ⟨id, 0⟩ := by
              rw [convertFullType_of_findType (AST.search_of_own hmap) htypeId, hlevel]
            have hmem : (⟨id, 0⟩ : TypeId) ∈ (ast.structures s).members.map Member.typeId := by
              rw [(hsettled s hs).types hcomplete, ← htype]
              exact List.mem_map_of_mem hmember
            obtain ⟨laid, hlaid, heq⟩ := List.mem_map.mp hmem
            refine ⟨laid, hlaid, ?_⟩
            rw [heq]
            simpa [AST.structOf, AST.getType] using (h.table.owned t id).mp hinfo
          exact ih t hholds ht (hfounded.holds_complete h.table hcomplete hholds)
      rw [hlast, hlast', Except.ok.injEq] at hlayout
      rw [hsize, hsize', hlayout]

theorem same_structSize (hfounded : Founded ast) {s : ℕ} (hs : s ∈ imp.structures) :
    ast'.structSize s = ast.structSize s := by
  have hmarks := same_complete hfresh hnames h h' hcreated hcreated' hsettled hsettled' hs
  cases hcomplete : (ast.structures s).complete with
  | true =>
      exact same_structSize_of_complete hfresh hnames h h' hcreated hcreated' hsettled hsettled'
        hfounded hs hcomplete
  | false =>
      obtain ⟨id, hinfo⟩ := h.table.created s (hcreated s hs)
      obtain ⟨id', hinfo'⟩ := h'.table.created s (hcreated' s hs)
      simp only [AST.structSize, hinfo, hinfo', h.table.size_eq_zero hinfo hcomplete,
        h'.table.size_eq_zero hinfo' (hmarks.trans hcomplete)]

theorem same_offsets (hfounded : Founded ast) {s : ℕ} (hs : s ∈ imp.structures) :
    (ast'.structures s).members.map Member.offset =
      (ast.structures s).members.map Member.offset := by
  rw [(hsettled s hs).offsets, (hsettled' s hs).offsets]
  refine (layoutMembers_offsets_congr fun member _ => ⟨?_, ?_⟩).1
  · exact same_valid hfresh hnames h h' hcreated hcreated' member.typeString
  · exact same_size hfresh hnames h h' hcreated hcreated' member.typeString fun t ht _ _ =>
      same_structSize hfresh hnames h h' hcreated hcreated' hsettled hsettled' hfounded ht

end TwoRuns

/-- Two orders of one set of declarations, both run to the end with timely attempts,
agree on which structures are complete, on all sizes and on all offsets. -/
theorem order_independent {imp' : FileBody} {n n' : ℕ} (hfresh : FreshFile base imp)
    (hnames : DistinctNames base imp) (hperm : imp'.structures.Perm imp.structures)
    (hscope : imp'.scopeId = imp.scopeId) (hfinal : Final imp base n) (hfinal' : Final imp' base n')
    (htimely : TimelyRun imp.scopeId base (passOrder imp (n + 1)))
    (htimely' : TimelyRun imp'.scopeId base (passOrder imp' (n' + 1))) {s : ℕ}
    (hs : s ∈ imp.structures) :
    ((passes imp' base (n' + 1)).structures s).complete =
        ((passes imp base (n + 1)).structures s).complete ∧
      (passes imp' base (n' + 1)).structSize s = (passes imp base (n + 1)).structSize s ∧
      ((passes imp' base (n' + 1)).structures s).members.map Member.offset =
        ((passes imp base (n + 1)).structures s).members.map Member.offset := by
  have hfresh' := hfresh.of_perm hperm
  have hnames' := hnames.of_perm hperm hscope
  have hgrown : Grown base imp (passes imp base (n + 1)) := by
    rw [passes_eq_attempts]
    exact hfresh.grown.attempts hnames fun _ => mem_of_mem_passOrder
  have hgrown' : Grown base imp (passes imp' base (n' + 1)) := by
    rw [passes_eq_attempts]
    exact (hfresh'.grown.attempts hnames' fun _ => mem_of_mem_passOrder).of_perm hperm hscope
  have hfounded : Founded (passes imp base (n + 1)) := by
    rw [passes_eq_attempts]
    exact hfresh.founded.attempts hfresh.tables htimely
  have hcreated : ∀ t ∈ imp.structures,
      ((passes imp base (n + 1)).structures t).createdType = true := by
    intro t ht
    rw [passes_eq_attempts]
    exact created_attempts hfresh.tables (Or.inl (mem_passOrder ht))
  have hcreated' : ∀ t ∈ imp.structures,
      ((passes imp' base (n' + 1)).structures t).createdType = true := by
    intro t ht
    rw [passes_eq_attempts]
    exact created_attempts hfresh.tables (Or.inl (mem_passOrder (hperm.mem_iff.mpr ht)))
  have hsettled : ∀ t ∈ imp.structures, Settled base imp (passes imp base (n + 1)) t :=
    fun t ht => settled_of_final hfresh hnames hfinal htimely ht
  have hsettled' : ∀ t ∈ imp.structures, Settled base imp (passes imp' base (n' + 1)) t :=
    fun t ht => (settled_of_final hfresh' hnames' hfinal' htimely'
      (hperm.mem_iff.mpr ht)).of_perm hscope
  exact ⟨same_complete hfresh hnames hgrown hgrown' hcreated hcreated' hsettled hsettled' hs,
    same_structSize hfresh hnames hgrown hgrown' hcreated hcreated' hsettled hsettled' hfounded hs,
    same_offsets hfresh hnames hgrown hgrown' hcreated hcreated' hsettled hsettled' hfounded hs⟩

/-! ## A file without imports -/

/-- Tables in which no structure owns a type and the entries in use are found by name. -/
structure Unowned (ast : AST) : Prop where
  astStruct : ∀ id, (ast.typeInfos id).astStruct = none
  fresh : ∀ id, ast.typesUsed ≤ id → (ast.typeInfos id).size = 0
  mapped : ∀ i name id, (ast.scopes i).typeMap name = some id →
    id < ast.typesUsed ∧ (ast.typeInfos id).typeId = ⟨id, 0⟩

namespace Unowned

theorem createScope (h : Unowned ast) (parent : ScopeId) : Unowned (ast.createScope parent).2 := by
  refine ⟨h.astStruct, h.fresh, fun i name id hmap => h.mapped i name id ?_⟩
  rw [← hmap]
  by_cases heq : i = ast.scopesUsed
  · subst heq; simp [AST.createScope]
  · simp [AST.createScope, heq]

theorem addPrimitive (h : Unowned ast) (primitive : String × ℕ) :
    Unowned (ast.addPrimitive primitive) := by
  refine ⟨fun id => ?_, fun id hle => ?_, fun i name id hmap => ?_⟩
  · by_cases heq : id = ast.typesUsed
    · subst heq; simpa [AST.addPrimitive, AST.createType] using h.astStruct ast.typesUsed
    · simpa [AST.addPrimitive, AST.createType, heq] using h.astStruct id
  · have hlt : ast.typesUsed < id := hle
    simpa [AST.addPrimitive, AST.createType, Nat.ne_of_gt hlt] using h.fresh id (Nat.le_of_lt hlt)
  · by_cases hnew : i = globalScope ∧ name = primitive.1
    · obtain ⟨rfl, rfl⟩ := hnew
      have hid : ast.typesUsed = id := by
        simpa [AST.addPrimitive, AST.createType] using hmap
      subst hid
      exact ⟨Nat.lt_succ_self _, by simp [AST.addPrimitive, AST.createType]⟩
    · have hold : (ast.scopes i).typeMap name = some id := by
        rw [← hmap]
        by_cases hi : i = globalScope
        · have hname : name ≠ primitive.1 := fun heq => hnew ⟨hi, heq⟩
          subst hi
          simp [AST.addPrimitive, AST.createType, hname]
        · simp [AST.addPrimitive, AST.createType, hi]
      obtain ⟨hlt, htypeId⟩ := h.mapped i name id hold
      refine ⟨Nat.lt_succ_of_lt hlt, ?_⟩
      simpa [AST.addPrimitive, AST.createType, Nat.ne_of_lt hlt] using htypeId

theorem foldl_addPrimitive (h : Unowned ast) (primitives : List (String × ℕ)) :
    Unowned (primitives.foldl AST.addPrimitive ast) := by
  induction primitives generalizing ast with
  | nil => exact h
  | cons primitive rest ih => exact ih (h.addPrimitive primitive)

theorem initial : Unowned AST.initial := by
  have hempty : Unowned ({} : AST) := ⟨fun _ => rfl, fun _ _ => rfl, fun _ _ _ h => by cases h⟩
  have hfold := (hempty.createScope globalScope).foldl_addPrimitive AST.primitiveTypes
  refine ⟨hfold.astStruct, hfold.fresh, fun i name id hmap => hfold.mapped i name id ?_⟩
  rw [← hmap]
  by_cases heq : i = globalScope
  · subst heq; simp [AST.initial]
  · simp [AST.initial, heq]

end Unowned

/-- The structure that a declaration with these members is parsed to. -/
def declaration (name : String) (members : List (String × String)) : ASTStructure where
  name := name
  members := members.map fun member => { name := member.1, typeString := member.2 }

/-- The tables of a compilation after the parser has read one file that declares these
structures. -/
def parsedTables (declarations : List ASTStructure) : AST :=
  let ast := (AST.initial.createScope globalScope).2
  { ast with
    structuresUsed := declarations.length
    structures := fun s => declarations.getD s ({} : ASTStructure) }

/-- The file, its structures declared in the order of `order`. -/
def parsedFile (order : List ℕ) : FileBody where
  scopeId := AST.initial.scopesUsed
  structures := order

theorem freshFile_parsed {declarations : List ASTStructure} (order : List ℕ)
    (hnew : ∀ declaration ∈ declarations, declaration.createdType = false ∧
      declaration.complete = false ∧ declaration.typeInfo = none) :
    FreshFile (parsedTables declarations) (parsedFile order) := by
  have hunowned := Unowned.initial.createScope globalScope
  have hstructure : ∀ s, ((parsedTables declarations).structures s).createdType = false ∧
      ((parsedTables declarations).structures s).complete = false ∧
      ((parsedTables declarations).structures s).typeInfo = none := by
    intro s
    have heq : (parsedTables declarations).structures s = declarations.getD s ({} : ASTStructure) :=
      rfl
    rw [heq, List.getD_eq_getElem?_getD]
    cases hget : declarations[s]? with
    | none => exact ⟨rfl, rfl, rfl⟩
    | some declaration => exact hnew declaration (List.mem_of_getElem? hget)
  refine ⟨?_, ?_, show 0 < AST.initial.typesUsed by decide, hunowned.mapped,
    fun s _ => (hstructure s).1⟩
  · refine ⟨fun id hle => ⟨hunowned.fresh id hle, hunowned.astStruct id⟩, ?_, ?_, ?_, ?_, ?_⟩
    · intro s hcreated
      rw [(hstructure s).1] at hcreated
      cases hcreated
    · intro s id
      rw [(hstructure s).2.2, show ((parsedTables declarations).typeInfos id).astStruct = none from
        hunowned.astStruct id]
      simp
    · intro s id hinfo
      rw [(hstructure s).2.2] at hinfo
      cases hinfo
    · intro s hcomplete
      rw [(hstructure s).2.1] at hcomplete
      cases hcomplete
    · exact fun s _ => (hstructure s).2.2
  · constructor
    · intro s hcomplete
      rw [(hstructure s).2.1] at hcomplete
      cases hcomplete
    · intro s hcomplete
      rw [(hstructure s).2.1] at hcomplete
      cases hcomplete

/-! ## The result -/

/-- **Completion of structures.** In a run of any number of passes over any list of
declarations: every completion is sound exactly when every attempt is timely; if all
are, containment by value of complete structures is well founded, no structure that
holds itself is complete, and a second order run to its end with timely attempts gives
the same complete structures, sizes and offsets. -/
theorem checkStructs_sound (hfresh : FreshFile base imp) (n : ℕ) :
    (SoundRun imp.scopeId base (passOrder imp n) ↔ TimelyRun imp.scopeId base (passOrder imp n)) ∧
    (TimelyRun imp.scopeId base (passOrder imp n) →
      (∀ s, ((passes imp base n).structures s).complete = true →
        Acc (fun t s => Holds (passes imp base n) s t) s) ∧
      (∀ s, Relation.TransGen (Holds (passes imp base n)) s s →
        ((passes imp base n).structures s).complete = false)) ∧
    (DistinctNames base imp → Final imp base n →
      TimelyRun imp.scopeId base (passOrder imp (n + 1)) →
      ∀ (imp' : FileBody) (n' : ℕ), imp'.structures.Perm imp.structures →
        imp'.scopeId = imp.scopeId → Final imp' base n' →
        TimelyRun imp'.scopeId base (passOrder imp' (n' + 1)) → ∀ s ∈ imp.structures,
          ((passes imp' base (n' + 1)).structures s).complete =
              ((passes imp base (n + 1)).structures s).complete ∧
            (passes imp' base (n' + 1)).structSize s = (passes imp base (n + 1)).structSize s ∧
            ((passes imp' base (n' + 1)).structures s).members.map Member.offset =
              ((passes imp base (n + 1)).structures s).members.map Member.offset) := by
  refine ⟨soundRun_iff_timelyRun hfresh.tables _, fun htimely => ?_, ?_⟩
  · have hfounded : Founded (passes imp base n) := by
      rw [passes_eq_attempts]
      exact hfresh.founded.attempts hfresh.tables htimely
    exact ⟨hfounded.acc, fun s => hfounded.not_complete_of_cycle⟩
  · intro hnames hfinal htimely imp' n' hperm hscope hfinal' htimely' s hs
    exact order_independent hfresh hnames hperm hscope hfinal hfinal' htimely htimely' hs

/-- `struct A { b: B }`, `struct B { c: C }` and `struct C { x: int }`. -/
def chain : List ASTStructure :=
  [declaration "A" [("b", "B")], declaration "B" [("c", "C")], declaration "C" [("x", "int")]]

theorem checkStructs_sound_chain :
    SoundRun 1 (parsedTables chain) (passOrder (parsedFile [2, 1, 0]) 1) ∧
    (passes (parsedFile [0, 2, 1]) (parsedTables chain) 3).structSize 0 =
      (passes (parsedFile [2, 1, 0]) (parsedTables chain) 2).structSize 0 := by
  have hfresh : FreshFile (parsedTables chain) (parsedFile [2, 1, 0]) :=
    freshFile_parsed [2, 1, 0] (by decide)
  have hnames : DistinctNames (parsedTables chain) (parsedFile [2, 1, 0]) :=
    ⟨by decide, by decide⟩
  obtain ⟨hsound, -, horder⟩ := checkStructs_sound hfresh 1
  exact ⟨hsound.mpr (by decide), (horder hnames (by decide) (by decide) (parsedFile [0, 2, 1]) 2
    (by decide) rfl (by decide) (by decide) 0 (by decide)).2.1⟩

/-- Declared as `B`, `A`, `C`, the structure `A` is completed around a `B` of size `0`, and
keeps the size `0`; declared as `C`, `B`, `A` its size is `4`. -/
theorem checkStructs_unsound_chain :
    ¬ SoundRun 1 (parsedTables chain) (passOrder (parsedFile [1, 0, 2]) 1) ∧
    Final (parsedFile [1, 0, 2]) (parsedTables chain) 2 ∧
    ((passes (parsedFile [1, 0, 2]) (parsedTables chain) 3).structures 0).complete = true ∧
    (passes (parsedFile [1, 0, 2]) (parsedTables chain) 3).structSize 0 = 0 ∧
    Final (parsedFile [2, 1, 0]) (parsedTables chain) 1 ∧
    (passes (parsedFile [2, 1, 0]) (parsedTables chain) 2).structSize 0 = 4 := by
  refine ⟨?_, by decide, by decide, by decide, by decide, by decide⟩
  have htables : TableInvariant (parsedTables chain) :=
    (freshFile_parsed [1, 0, 2] (by decide)).tables
  rw [soundRun_iff_timelyRun htables]
  decide

end TinCompiler
