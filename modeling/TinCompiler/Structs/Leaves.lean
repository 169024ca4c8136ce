import TinCompiler.Structs.Permutation
import Mathlib.Algebra.Ring.Divisibility.Basic
import Mathlib.Algebra.Ring.Nat
import Mathlib.Data.List.Basic
import Mathlib.Data.Set.Insert

/-!
# The leaves of a structure

A value is made of scalars and pointers, its leaves.  `generateStruct` aligns a member by its
size, not by its leaves; still the leaves of a structure lie in it in order, do not overlap and
are aligned to their own sizes, in every element of an array (`structRun_fit`).
-/

namespace TinCompiler

/-! ## Alignment -/

theorem dvd_alignUp (n a : ℕ) : a ∣ alignUp n a := Dvd.intro_left _ rfl

theorem le_alignUp (n : ℕ) {a : ℕ} (ha : 0 < a) : n ≤ alignUp n a := by
  have hdiv := Nat.div_add_mod (n + (a - 1)) a
  have hlt := Nat.mod_lt (n + (a - 1)) ha
  have hcomm := Nat.mul_comm a ((n + (a - 1)) / a)
  unfold alignUp
  omega

theorem alignedSize_cases (size : ℕ) :
    alignedSize size = 2 ∨ alignedSize size = 4 ∨ alignedSize size = 8 := by
  unfold alignedSize
  split
  · exact .inl rfl
  · split
    · exact .inr (.inl rfl)
    · exact .inr (.inr rfl)

/-- The alignments that occur divide each other. -/
def IsAlignment (a : ℕ) : Prop := a = 1 ∨ a = 2 ∨ a = 4 ∨ a = 8

theorem isAlignment_alignedSize (size : ℕ) : IsAlignment (alignedSize size) :=
  .inr (alignedSize_cases size)

theorem IsAlignment.dvd {a b : ℕ} (ha : IsAlignment a) (hb : IsAlignment b) (hle : a ≤ b) :
    a ∣ b := by
  rcases ha with rfl | rfl | rfl | rfl <;> rcases hb with rfl | rfl | rfl | rfl <;>
    first | decide | omega

/-! ## The members -/

variable {ast ast' : AST} {scopeId : ScopeId}

/-- Members that lie one after the other between two offsets, each aligned by its size. -/
structure LaidMembers (ast : AST) (members : List Member) (low high alignment : ℕ) : Prop where
  low : ∀ member ∈ members, low ≤ member.offset
  high : ∀ member ∈ members, member.offset + ast.sizeOfType member.typeId ≤ high
  ordered : members.Pairwise fun member other =>
    member.offset + ast.sizeOfType member.typeId ≤ other.offset
  aligned : ∀ member ∈ members, alignedSize (ast.sizeOfType member.typeId) ∣ member.offset
  alignment : ∀ member ∈ members, alignedSize (ast.sizeOfType member.typeId) ∣ alignment

/-- The loop of `generateStruct`, with the sizes that it reads. -/
theorem layoutMembers_laid {members : List Member} : ∀ {offset alignment : ℕ} {last : ℕ × ℕ},
    IsAlignment alignment →
    (layoutMembers ast scopeId members offset alignment).2 = .ok last →
    offset ≤ last.1 ∧ alignment ≤ last.2 ∧ IsAlignment last.2 ∧
      LaidMembers ast (layoutMembers ast scopeId members offset alignment).1 offset last.1 last.2 := by
  induction members with
  | nil =>
      intro offset alignment last halignment hlast
      obtain rfl : (offset, alignment) = last := Except.ok.inj hlast
      exact ⟨Nat.le_refl _, Nat.le_refl _, halignment, by simp [layoutMembers], by
        simp [layoutMembers], by simp [layoutMembers], by simp [layoutMembers], by
        simp [layoutMembers]⟩
  | cons member rest ih =>
      intro offset alignment last halignment hlast
      by_cases hvalid : (ast.convertFullType member.typeString scopeId).Valid
      · simp only [layoutMembers, hvalid, if_true] at hlast ⊢
        generalize htype : ast.convertFullType member.typeString scopeId = type at hlast ⊢
        generalize hnew : (if alignment < alignedSize (ast.sizeOfType type) then
          alignedSize (ast.sizeOfType type) else alignment) = new at hlast ⊢
        have haligned := isAlignment_alignedSize (ast.sizeOfType type)
        have hmax : alignment ≤ new ∧ alignedSize (ast.sizeOfType type) ≤ new ∧ IsAlignment new := by
          rw [← hnew]
          split
          · exact ⟨by omega, Nat.le_refl _, haligned⟩
          · exact ⟨Nat.le_refl _, by omega, halignment⟩
        have hpos : 0 < alignedSize (ast.sizeOfType type) := by
          rcases alignedSize_cases (ast.sizeOfType type) with h | h | h <;> omega
        have hle := le_alignUp offset hpos
        obtain ⟨hoffset, hgrown, hlastAlignment, hrest⟩ := ih hmax.2.2 hlast
        refine ⟨by omega, by omega, hlastAlignment, ?_, ?_, ?_, ?_, ?_⟩
        · intro other hmem
          rcases List.mem_cons.mp hmem with rfl | hmem
          · exact hle
          · have := hrest.low other hmem
            omega
        · intro other hmem
          rcases List.mem_cons.mp hmem with rfl | hmem
          · exact hoffset
          · exact hrest.high other hmem
        · exact List.pairwise_cons.mpr ⟨hrest.low, hrest.ordered⟩
        · intro other hmem
          rcases List.mem_cons.mp hmem with rfl | hmem
          · exact dvd_alignUp _ _
          · exact hrest.aligned other hmem
        · intro other hmem
          rcases List.mem_cons.mp hmem with rfl | hmem
          · exact haligned.dvd hlastAlignment (hmax.2.1.trans hgrown)
          · exact hrest.alignment other hmem
      · simp [layoutMembers, hvalid] at hlast

/-! ## The leaves -/

/-- A scalar or a pointer: where it begins and its size. -/
structure Leaf where
  offset : ℕ
  size : ℕ
deriving DecidableEq, Repr

/-- The leaves of a value of the type that begins at `offset`, in the order of the members; the
first number bounds how deep structures are nested. -/
def AST.leafList (ast : AST) : ℕ → ℕ → TypeId → List Leaf
  | 0, _, _ => []
  | fuel + 1, offset, type =>
      match ast.structOf type with
      | none => [⟨offset, ast.sizeOfType type⟩]
      | some s => (ast.structures s).members.flatMap fun member =>
          ast.leafList fuel (offset + member.offset) member.typeId

/-- The leaves of a value do not depend on where it begins. -/
theorem leafList_shift (ast : AST) (fuel offset : ℕ) (type : TypeId) (shift : ℕ) :
    ast.leafList fuel (shift + offset) type =
      (ast.leafList fuel offset type).map fun leaf => { leaf with offset := shift + leaf.offset } := by
  induction fuel generalizing offset type with
  | zero => rfl
  | succ fuel ih =>
      unfold AST.leafList
      cases ast.structOf type with
      | none => rfl
      | some s =>
          rw [List.map_flatMap]
          exact List.flatMap_congr fun member _ => by rw [Nat.add_assoc, ih]

/-- The sizes of scalars and pointers. -/
def IsLeafSize (size : ℕ) : Prop := size = 1 ∨ size = 4 ∨ size = 8

instance (size : ℕ) : Decidable (IsLeafSize size) := inferInstanceAs (Decidable (_ ∨ _))

/-- Leaves that fit into a value of some size at 0. -/
structure LeavesFit (leaves : List Leaf) (size : ℕ) : Prop where
  inside : ∀ leaf ∈ leaves, leaf.offset + leaf.size ≤ size
  ordered : leaves.Pairwise fun leaf other => leaf.offset + leaf.size ≤ other.offset
  leafSize : ∀ leaf ∈ leaves, IsLeafSize leaf.size
  aligned : ∀ leaf ∈ leaves, leaf.size ∣ leaf.offset
  closed : ∀ leaf ∈ leaves, leaf.size ∣ size

theorem leavesFit_single {size : ℕ} (hsize : IsLeafSize size) : LeavesFit [⟨0, size⟩] size := by
  refine ⟨?_, List.pairwise_singleton _ _, ?_, ?_, ?_⟩ <;> simp [hsize]

/-- A leaf of a member is aligned with the member. -/
theorem leafSize_dvd {leaf size : ℕ} (hleaf : IsLeafSize leaf) (hle : leaf ≤ size) :
    leaf ∣ alignedSize size := by
  unfold alignedSize
  rcases hleaf with rfl | rfl | rfl
  · exact one_dvd _
  · split
    · omega
    · split <;> decide
  · rw [if_neg (by omega), if_neg (by omega)]

/-- The leaves of the members, one member after the other. -/
theorem leavesFit_members {members : List Member} {low size : ℕ} {leavesOf : Member → List Leaf}
    (hlaid : LaidMembers ast members low size size)
    (hfit : ∀ member ∈ members, LeavesFit (leavesOf member) (ast.sizeOfType member.typeId)) :
    LeavesFit (members.flatMap fun member => (leavesOf member).map fun leaf =>
      { leaf with offset := member.offset + leaf.offset }) size := by
  refine ⟨?_, ?_, ?_, ?_, ?_⟩
  · intro leaf hleaf
    obtain ⟨member, hmember, hleaf⟩ := List.mem_flatMap.mp hleaf
    obtain ⟨inner, hinner, rfl⟩ := List.mem_map.mp hleaf
    have hinside := (hfit member hmember).inside inner hinner
    have hhigh := hlaid.high member hmember
    simp only
    omega
  · refine List.pairwise_flatMap.mpr ⟨fun member hmember => ?_, ?_⟩
    · refine List.pairwise_map.mpr ((hfit member hmember).ordered.imp fun hle => ?_)
      simp only
      omega
    · refine hlaid.ordered.imp_of_mem fun {member other} hmember _ hle => ?_
      intro leaf hleaf leaf' hleaf'
      obtain ⟨inner, hinner, rfl⟩ := List.mem_map.mp hleaf
      obtain ⟨inner', hinner', rfl⟩ := List.mem_map.mp hleaf'
      have hinside := (hfit member hmember).inside inner hinner
      simp only
      omega
  · intro leaf hleaf
    obtain ⟨member, hmember, hleaf⟩ := List.mem_flatMap.mp hleaf
    obtain ⟨inner, hinner, rfl⟩ := List.mem_map.mp hleaf
    exact (hfit member hmember).leafSize inner hinner
  · intro leaf hleaf
    obtain ⟨member, hmember, hleaf⟩ := List.mem_flatMap.mp hleaf
    obtain ⟨inner, hinner, rfl⟩ := List.mem_map.mp hleaf
    have hmemberFit := hfit member hmember
    have hinside := hmemberFit.inside inner hinner
    have hdvd := leafSize_dvd (hmemberFit.leafSize inner hinner)
      (show inner.size ≤ ast.sizeOfType member.typeId by omega)
    exact dvd_add (hdvd.trans (hlaid.aligned member hmember)) (hmemberFit.aligned inner hinner)
  · intro leaf hleaf
    obtain ⟨member, hmember, hleaf⟩ := List.mem_flatMap.mp hleaf
    obtain ⟨inner, hinner, rfl⟩ := List.mem_map.mp hleaf
    have hmemberFit := hfit member hmember
    have hinside := hmemberFit.inside inner hinner
    have hdvd := leafSize_dvd (hmemberFit.leafSize inner hinner)
      (show inner.size ≤ ast.sizeOfType member.typeId by omega)
    exact hdvd.trans (hlaid.alignment member hmember)

/-! ## Sound structures -/

/-- The structures of `sound` are complete, are laid out with the sizes of their members, and
hold only scalars, pointers and each other. -/
structure SoundStructs (ast : AST) (sound : Set ℕ) : Prop where
  table : TableInvariant ast
  /-- types without a structure are scalars, or unused -/
  scalar : ∀ id, (ast.typeInfos id).astStruct = none →
    (ast.typeInfos id).size = 0 ∨ IsLeafSize (ast.typeInfos id).size
  complete : ∀ s ∈ sound, (ast.structures s).complete = true
  laid : ∀ s ∈ sound, ∀ id, (ast.structures s).typeInfo = some id →
    LaidMembers ast (ast.structures s).members 0 (ast.typeInfos id).size (ast.typeInfos id).size
  sized : ∀ s ∈ sound, ∀ member ∈ (ast.structures s).members,
    ast.sizeOfType member.typeId ≠ 0
  held : ∀ s ∈ sound, ∀ member ∈ (ast.structures s).members, ∀ t,
    ast.structOf member.typeId = some t → t ∈ sound

/-- The leaves of a scalar type, of a pointer type or of a type that holds sound structures only. -/
theorem SoundStructs.leavesFit {sound : Set ℕ} (h : SoundStructs ast sound) (fuel : ℕ) :
    ∀ {type : TypeId}, (ast.structOf type = none → ast.sizeOfType type ≠ 0) →
      (∀ t, ast.structOf type = some t → t ∈ sound) →
      LeavesFit (ast.leafList fuel 0 type) (ast.sizeOfType type) := by
  induction fuel with
  | zero => exact fun _ _ => ⟨by simp [AST.leafList], by simp [AST.leafList], by simp [AST.leafList], by
      simp [AST.leafList], by simp [AST.leafList]⟩
  | succ fuel ih =>
      intro type hsize hheld
      unfold AST.leafList
      cases hstruct : ast.structOf type with
      | none =>
          refine leavesFit_single ?_
          have hsize := hsize hstruct
          unfold AST.structOf AST.getType at hstruct
          unfold AST.sizeOfType AST.getType at hsize ⊢
          by_cases hlevel : type.pointerLevel = 0
          · rw [if_pos hlevel] at hstruct
            rw [if_neg (not_not.mpr hlevel)] at hsize ⊢
            exact (h.scalar _ hstruct).resolve_left hsize
          · rw [if_pos hlevel]
            exact .inr (.inr rfl)
      | some s =>
          have hs := hheld s hstruct
          have hlevel : type.pointerLevel = 0 := by
            by_contra hlevel
            rw [AST.structOf, if_neg hlevel] at hstruct
            cases hstruct
          have hinfo : (ast.structures s).typeInfo = some type.index := by
            rw [AST.structOf, if_pos hlevel] at hstruct
            exact (h.table.owned s _).mpr hstruct
          have hsizeOf : ast.sizeOfType type = (ast.typeInfos type.index).size := by
            rw [AST.sizeOfType, if_neg (not_not.mpr hlevel), AST.getType]
          rw [hsizeOf]
          have hmembers : ((ast.structures s).members.flatMap fun member =>
              ast.leafList fuel (0 + member.offset) member.typeId) =
              (ast.structures s).members.flatMap fun member =>
                (ast.leafList fuel 0 member.typeId).map fun leaf =>
                  { leaf with offset := member.offset + leaf.offset } :=
            List.flatMap_congr fun member _ => by
              rw [Nat.add_comm, leafList_shift]
          have hfit := leavesFit_members (h.laid s hs _ hinfo) fun member hmember =>
            ih (fun _ => h.sized s hs member hmember) (h.held s hs member hmember)
          rwa [← hmembers] at hfit

/-! ## Runs -/

theorem LaidMembers.congr {members : List Member} {low high alignment : ℕ}
    (h : LaidMembers ast members low high alignment)
    (hsize : ∀ member ∈ members,
      ast'.sizeOfType member.typeId = ast.sizeOfType member.typeId) :
    LaidMembers ast' members low high alignment := by
  refine ⟨h.low, ?_, ?_, ?_, ?_⟩
  · intro member hmember
    rw [hsize member hmember]
    exact h.high member hmember
  · refine h.ordered.imp_of_mem fun {member other} hmember _ hle => ?_
    rwa [hsize member hmember]
  · intro member hmember
    rw [hsize member hmember]
    exact h.aligned member hmember
  · intro member hmember
    rw [hsize member hmember]
    exact h.alignment member hmember

/-- The rounding at the end. -/
theorem LaidMembers.rounded {members : List Member} {low high alignment : ℕ}
    (h : LaidMembers ast members low high alignment) (hpos : 0 < alignment) :
    LaidMembers ast members low (alignUp high alignment) (alignUp high alignment) :=
  ⟨h.low, fun member hmember => (h.high member hmember).trans (le_alignUp high hpos), h.ordered,
    h.aligned, fun member hmember => (h.alignment member hmember).trans (dvd_alignUp high alignment)⟩

/-- An attempt writes the size of its own type only. -/
theorem attempt_size {s id : ℕ}
    (hne : ((attempt scopeId ast s).structures s).typeInfo ≠ some id) :
    ((attempt scopeId ast s).typeInfos id).size = (ast.typeInfos id).size := by
  have hlaid : ((laidOut scopeId ast s).typeInfos id).size = (ast.typeInfos id).size := by
    simp [laidOut]
  cases hcomplete : (ast.structures s).complete with
  | true => rw [attempt_of_complete scopeId hcomplete]
  | false =>
      by_cases hvalid : MembersValid (createStructType ast scopeId s) scopeId s
      · obtain ⟨last, -, hattempt⟩ := attempt_of_valid hcomplete hvalid
        rw [hattempt] at hne ⊢
        rw [setComplete_structures_self, setTypeSize_structures] at hne
        rw [setComplete_typeInfos, setTypeSize_typeInfos, if_neg hne, hlaid]
      · rw [attempt_of_invalid hcomplete hvalid, hlaid]

/-- An attempt that completes a structure whose members have their sizes lays it out. -/
theorem attempt_laid {s id : ℕ} (htable : TableInvariant ast)
    (hincomplete : (ast.structures s).complete = false)
    (hcomplete : ((attempt scopeId ast s).structures s).complete = true)
    (hsized : ∀ member ∈ ((attempt scopeId ast s).structures s).members,
      ast.sizeOfType member.typeId ≠ 0)
    (hinfo : ((attempt scopeId ast s).structures s).typeInfo = some id) :
    LaidMembers (attempt scopeId ast s) ((attempt scopeId ast s).structures s).members 0
      ((attempt scopeId ast s).typeInfos id).size ((attempt scopeId ast s).typeInfos id).size := by
  have hextends : Extends ast (attempt scopeId ast s) := extends_attempt htable s
  obtain ⟨last, hlast, hattempt⟩ :=
    attempt_of_valid hincomplete (membersValid_of_completes hincomplete hcomplete)
  obtain ⟨-, -, halignment, hlaid⟩ := layoutMembers_laid (.inl rfl) hlast
  have hmembers : ((attempt scopeId ast s).structures s).members =
      (layoutMembers (createStructType ast scopeId s) scopeId
        ((createStructType ast scopeId s).structures s).members 0 1).1 := by
    rw [hattempt, setComplete_structures_self, setTypeSize_structures]
    simp [laidOut]
  have hsize : ((attempt scopeId ast s).typeInfos id).size = alignUp last.1 last.2 := by
    rw [hattempt, setComplete_structures_self, setTypeSize_structures] at hinfo
    rw [hattempt, setComplete_typeInfos, setTypeSize_typeInfos, if_pos hinfo]
  have hpos : 0 < last.2 := by
    rcases halignment with h | h | h | h <;> omega
  rw [hsize, hmembers]
  refine (hlaid.rounded hpos).congr fun member hmember => ?_
  rw [createStructType_sizeOfType, hextends.sizeOfType (hsized member (hmembers ▸ hmember))]

/-- Whatever else happens to the tables: the parser adds structures that have no type yet. -/
structure SameStructs (ast ast' : AST) : Prop where
  typesUsed : ast'.typesUsed = ast.typesUsed
  size : ∀ id, (ast'.typeInfos id).size = (ast.typeInfos id).size
  astStruct : ∀ id, (ast'.typeInfos id).astStruct = (ast.typeInfos id).astStruct
  structures : ∀ s, ast'.structures s = ast.structures s ∨
    (ast.structures s).createdType = false ∧ (ast'.structures s).createdType = false ∧
      (ast'.structures s).complete = false ∧ (ast'.structures s).typeInfo = none

/-- Any sequence of attempts from the tables of the constructor, with the structures that were
completed while all that they hold was: their members had sizes, and the structures among them
had been completed so before. -/
inductive StructRun : AST → Set ℕ → Prop where
  | initial : StructRun AST.initial ∅
  | attempt {ast : AST} {sound : Set ℕ} (scopeId : ScopeId) (s : ℕ) :
      StructRun ast sound → StructRun (attempt scopeId ast s) sound
  | completes {ast : AST} {sound : Set ℕ} (scopeId : ScopeId) (s : ℕ) : StructRun ast sound →
      (ast.structures s).complete = false →
      ((TinCompiler.attempt scopeId ast s).structures s).complete = true →
      (∀ member ∈ ((TinCompiler.attempt scopeId ast s).structures s).members,
        ast.sizeOfType member.typeId ≠ 0 ∧
          ∀ t, ast.structOf member.typeId = some t → t ∈ sound) →
      StructRun (TinCompiler.attempt scopeId ast s) (insert s sound)
  | other {ast ast' : AST} {sound : Set ℕ} :
      StructRun ast sound → SameStructs ast ast' → StructRun ast' sound

namespace SoundStructs

variable {sound : Set ℕ}

theorem attempt (h : SoundStructs ast sound) (scopeId : ScopeId) (s : ℕ) :
    SoundStructs (attempt scopeId ast s) sound := by
  have hextends : Extends ast (TinCompiler.attempt scopeId ast s) := extends_attempt h.table s
  have hsame : ∀ t ∈ sound, (TinCompiler.attempt scopeId ast s).structures t = ast.structures t :=
    fun t ht => hextends.complete t (h.complete t ht)
  refine ⟨h.table.attempt s, ?_, ?_, ?_, ?_, ?_⟩
  · intro id hnone
    have hold : (ast.typeInfos id).astStruct = none := by
      by_cases hlt : id < ast.typesUsed
      · rw [← hextends.astStruct id hlt, hnone]
      · exact (h.table.fresh id (Nat.le_of_not_lt hlt)).2
    rw [attempt_size fun hinfo => ?_]
    · exact h.scalar id hold
    · rw [((h.table.attempt s).owned s id).mp hinfo] at hnone
      cases hnone
  · intro t ht
    rw [hsame t ht]
    exact h.complete t ht
  · intro t ht id hinfo
    rw [hsame t ht] at hinfo ⊢
    rw [hextends.completeSize t id (h.complete t ht) hinfo]
    exact (h.laid t ht id hinfo).congr fun member hmember =>
      hextends.sizeOfType (h.sized t ht member hmember)
  · intro t ht member hmember
    rw [hsame t ht] at hmember
    have hsize := h.sized t ht member hmember
    rwa [hextends.sizeOfType hsize]
  · intro t ht member hmember u hstruct
    rw [hsame t ht] at hmember
    rw [hextends.structOf h.table (h.sized t ht member hmember)] at hstruct
    exact h.held t ht member hmember u hstruct

theorem completes (h : SoundStructs ast sound) (scopeId : ScopeId) (s : ℕ)
    (hincomplete : (ast.structures s).complete = false)
    (hcomplete : ((TinCompiler.attempt scopeId ast s).structures s).complete = true)
    (hheld : ∀ member ∈ ((TinCompiler.attempt scopeId ast s).structures s).members,
      ast.sizeOfType member.typeId ≠ 0 ∧ ∀ t, ast.structOf member.typeId = some t → t ∈ sound) :
    SoundStructs (TinCompiler.attempt scopeId ast s) (insert s sound) := by
  have hold := h.attempt scopeId s
  have hextends : Extends ast (TinCompiler.attempt scopeId ast s) := extends_attempt h.table s
  refine ⟨hold.table, hold.scalar, ?_, ?_, ?_, ?_⟩
  · rintro t (rfl | ht)
    · exact hcomplete
    · exact hold.complete t ht
  · rintro t (rfl | ht) id hinfo
    · exact attempt_laid h.table hincomplete hcomplete (fun member hmember =>
        (hheld member hmember).1) hinfo
    · exact hold.laid t ht id hinfo
  · rintro t (rfl | ht) member hmember
    · have hsize := (hheld member hmember).1
      rwa [hextends.sizeOfType hsize]
    · exact hold.sized t ht member hmember
  · rintro t (rfl | ht) member hmember u hstruct
    · obtain ⟨hsize, hstructs⟩ := hheld member hmember
      rw [hextends.structOf h.table hsize] at hstruct
      exact .inr (hstructs u hstruct)
    · exact .inr (hold.held t ht member hmember u hstruct)

theorem of_same (h : SoundStructs ast sound) (hsame : SameStructs ast ast') :
    SoundStructs ast' sound := by
  have hsize : ∀ type, ast'.sizeOfType type = ast.sizeOfType type := fun type => by
    simp only [AST.sizeOfType, AST.getType, hsame.size]
  have hstructOf : ∀ type, ast'.structOf type = ast.structOf type := fun type => by
    simp only [AST.structOf, AST.getType, hsame.astStruct]
  have hcompleted : ∀ t ∈ sound, ast'.structures t = ast.structures t := fun t ht => by
    rcases hsame.structures t with heq | ⟨hcreated, -⟩
    · exact heq
    · rw [h.table.complete_created t (h.complete t ht)] at hcreated
      cases hcreated
  have htable : TableInvariant ast' := by
    refine ⟨?_, ?_, ?_, ?_, ?_, ?_⟩
    · intro id hle
      rw [hsame.size, hsame.astStruct]
      exact h.table.fresh id (hsame.typesUsed ▸ hle)
    · intro s hcreated
      rcases hsame.structures s with heq | ⟨-, hnew, -⟩
      · rw [heq] at hcreated ⊢
        exact h.table.created s hcreated
      · rw [hnew] at hcreated
        cases hcreated
    · intro s id
      rw [hsame.astStruct, ← h.table.owned s id]
      rcases hsame.structures s with heq | ⟨hcreated, -, -, hinfo⟩
      · rw [heq]
      · rw [hinfo, h.table.uncreated s hcreated]
    · intro s id hinfo hne
      rw [hsame.size] at hne
      rcases hsame.structures s with heq | ⟨-, -, -, hnone⟩
      · rw [heq] at hinfo ⊢
        exact h.table.sized s id hinfo hne
      · rw [hnone] at hinfo
        cases hinfo
    · intro s hcomplete
      rcases hsame.structures s with heq | ⟨-, -, hnew, -⟩
      · rw [heq] at hcomplete ⊢
        exact h.table.complete_created s hcomplete
      · rw [hnew] at hcomplete
        cases hcomplete
    · intro s hcreated
      rcases hsame.structures s with heq | ⟨-, -, -, hnone⟩
      · rw [heq] at hcreated ⊢
        exact h.table.uncreated s hcreated
      · exact hnone
  refine ⟨htable, ?_, ?_, ?_, ?_, ?_⟩
  · intro id hnone
    rw [hsame.astStruct] at hnone
    rw [hsame.size]
    exact h.scalar id hnone
  · intro t ht
    rw [hcompleted t ht]
    exact h.complete t ht
  · intro t ht id hinfo
    rw [hcompleted t ht] at hinfo ⊢
    rw [hsame.size]
    exact (h.laid t ht id hinfo).congr fun member _ => hsize _
  · intro t ht member hmember
    rw [hcompleted t ht] at hmember
    rw [hsize]
    exact h.sized t ht member hmember
  · intro t ht member hmember u hstruct
    rw [hcompleted t ht] at hmember
    rw [hstructOf] at hstruct
    exact h.held t ht member hmember u hstruct

theorem initial : SoundStructs AST.initial ∅ := by
  have htable : TableInvariant AST.initial := by
    refine ⟨fun id hle => ⟨Unowned.initial.fresh id hle, Unowned.initial.astStruct id⟩, ?_, ?_, ?_,
      ?_, fun _ _ => rfl⟩
    · exact fun s hcreated => nomatch (hcreated : false = true)
    · intro s id
      rw [Unowned.initial.astStruct id]
      exact iff_of_false (fun hinfo => nomatch (hinfo : none = some id)) fun h => nomatch h
    · exact fun s id hinfo => nomatch (hinfo : none = some id)
    · exact fun s hcomplete => nomatch (hcomplete : false = true)
  refine ⟨htable, fun id _ => ?_, by simp, by simp, by simp, by simp⟩
  by_cases hlt : id < 5
  · have hall : ∀ id < 5, (AST.initial.typeInfos id).size = 0 ∨
        (AST.initial.typeInfos id).size = 1 ∨ (AST.initial.typeInfos id).size = 4 := by decide
    rcases hall id hlt with h | h | h
    · exact .inl h
    · exact .inr (.inl h)
    · exact .inr (.inr (.inl h))
  · exact .inl (Unowned.initial.fresh id (Nat.le_of_not_lt hlt))

end SoundStructs

theorem StructRun.soundStructs {sound : Set ℕ} (h : StructRun ast sound) : SoundStructs ast sound := by
  induction h with
  | initial => exact .initial
  | attempt scopeId s _ ih => exact ih.attempt scopeId s
  | completes scopeId s _ hincomplete hcomplete hheld ih =>
      exact ih.completes scopeId s hincomplete hcomplete hheld
  | other _ hsame ih => exact ih.of_same hsame

/-! ## The layout -/

/-- The leaves of the elements of an array of the type, and so of a single value. -/
structure StructLayout (ast : AST) (s : ℕ) (type : TypeId) : Prop where
  inside : ∀ fuel i, ∀ leaf ∈ ast.leafList fuel (ast.sizeOfType type * i) type,
    ast.sizeOfType type * i ≤ leaf.offset ∧
      leaf.offset + leaf.size ≤ ast.sizeOfType type * i + ast.sizeOfType type
  disjoint : ∀ fuel i, (ast.leafList fuel (ast.sizeOfType type * i) type).Pairwise
    fun leaf other => leaf.offset + leaf.size ≤ other.offset
  ordered : (ast.structures s).members.Pairwise fun member other => member.offset ≤ other.offset
  aligned : ∀ fuel i, ∀ leaf ∈ ast.leafList fuel (ast.sizeOfType type * i) type,
    IsLeafSize leaf.size ∧ leaf.size ∣ leaf.offset
  closed : ∀ fuel i, ∀ leaf ∈ ast.leafList fuel (ast.sizeOfType type * i) type,
    leaf.size ∣ ast.sizeOfType type

/-- The layout of every structure that was completed while all that it holds was. -/
theorem structRun_fit {sound : Set ℕ} (h : StructRun ast sound) {s id : ℕ} (hs : s ∈ sound)
    (hinfo : (ast.structures s).typeInfo = some id) : StructLayout ast s ⟨id, 0⟩ := by
  have hsound := h.soundStructs
  have hstruct : ast.structOf ⟨id, 0⟩ = some s := by
    rw [AST.structOf, if_pos rfl]
    exact (hsound.table.owned s id).mp hinfo
  have hshift (fuel offset : ℕ) : ast.leafList fuel offset ⟨id, 0⟩ =
      (ast.leafList fuel 0 ⟨id, 0⟩).map fun leaf =>
        { leaf with offset := offset + leaf.offset } := leafList_shift ast fuel 0 ⟨id, 0⟩ offset
  have hfit : ∀ fuel, LeavesFit (ast.leafList fuel 0 ⟨id, 0⟩) (ast.sizeOfType ⟨id, 0⟩) := fun fuel =>
    hsound.leavesFit fuel (fun hnone => absurd (hstruct.symm.trans hnone) (Option.some_ne_none s))
      fun t ht => Option.some.inj (hstruct.symm.trans ht) ▸ hs
  refine ⟨?_, ?_, ?_, ?_, ?_⟩
  · intro fuel i leaf hleaf
    rw [hshift] at hleaf
    obtain ⟨inner, hinner, rfl⟩ := List.mem_map.mp hleaf
    have hinside := (hfit fuel).inside inner hinner
    simp only
    omega
  · intro fuel i
    rw [hshift]
    refine List.pairwise_map.mpr ((hfit fuel).ordered.imp fun hle => ?_)
    simp only
    omega
  · refine (hsound.laid s hs id hinfo).ordered.imp fun hle => ?_
    omega
  · intro fuel i leaf hleaf
    rw [hshift] at hleaf
    obtain ⟨inner, hinner, rfl⟩ := List.mem_map.mp hleaf
    exact ⟨(hfit fuel).leafSize inner hinner,
      dvd_add (((hfit fuel).closed inner hinner).mul_right i) ((hfit fuel).aligned inner hinner)⟩
  · intro fuel i leaf hleaf
    rw [hshift] at hleaf
    obtain ⟨inner, hinner, rfl⟩ := List.mem_map.mp hleaf
    exact (hfit fuel).closed inner hinner

/-- A structure of a `char` and an `int`. -/
def pair : List ASTStructure := [declaration "Pair" [("c", "char"), ("n", "int")]]

theorem structRun_pair :
    StructRun (attempt 1 (parsedTables pair) 0) {0} := by
  have hparsed : StructRun (parsedTables pair) ∅ := by
    refine .other .initial ⟨rfl, fun _ => rfl, fun _ => rfl, fun s => .inr ⟨rfl, ?_⟩⟩
    have hstructure : (parsedTables pair).structures s = pair.getD s ({} : ASTStructure) := rfl
    rw [hstructure]
    match s with
    | 0 => exact ⟨rfl, rfl, rfl⟩
    | s + 1 => exact ⟨rfl, rfl, rfl⟩
  have hheld : ∀ member ∈ ((attempt 1 (parsedTables pair) 0).structures 0).members,
      (parsedTables pair).sizeOfType member.typeId ≠ 0 ∧
        (parsedTables pair).structOf member.typeId = none := by decide
  have hrun := hparsed.completes 1 0 (by decide) (by decide) fun member hmember =>
    ⟨(hheld member hmember).1, fun t ht => nomatch (hheld member hmember).2.symm.trans ht⟩
  rwa [insert_empty_eq] at hrun

theorem structRun_fit_pair : StructLayout (attempt 1 (parsedTables pair) 0) 0 ⟨5, 0⟩ :=
  structRun_fit structRun_pair rfl (by decide)

end TinCompiler
