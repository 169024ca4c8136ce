import Mathlib.Data.List.TakeWhile
import TinCompiler.Structs.Tables

/-!
# Spelling types

A type is spelled as the name of its base and one asterisk for each pointer level.  The level is
kept in 8 bits, so `convertFullType` reads a spelling back exactly if it has fewer than 256
asterisks (`convertFullType_roundTrip_iff`), which is so for the spellings of `nameOfType`.
-/

namespace TinCompiler

/-- The base followed by `n` asterisks. -/
def spelled (base : String) (n : ℕ) : String := base ++ String.ofList (List.replicate n '*')

/-- Names are identifiers of the lexer. -/
structure IsTypeName (name : String) : Prop where
  nonempty : name.toList ≠ []
  noStar : '*' ∉ name.toList

instance (name : String) : Decidable (IsTypeName name) :=
  decidable_of_iff (name.toList ≠ [] ∧ '*' ∉ name.toList)
    ⟨fun h => ⟨h.1, h.2⟩, fun h => ⟨h.nonempty, h.noStar⟩⟩

namespace AST

variable {ast ast' : AST}

theorem splitPointers_spelled {base : String} (hbase : IsTypeName base) (n : ℕ) :
    splitPointers (spelled base n) = (base, n) := by
  have hchars : (spelled base n).toList = base.toList ++ List.replicate n '*' := by
    simp [spelled]
  have hstars : ((base.toList ++ List.replicate n '*').reverse.takeWhile (· = '*')).length = n := by
    have hnone : base.toList.reverse.takeWhile (· = '*') = [] := by
      rw [List.takeWhile_eq_nil_iff]
      intro hlt hstar
      have hstar : base.toList.reverse[0] = '*' := of_decide_eq_true hstar
      have hmem := List.getElem_mem hlt
      rw [hstar, List.mem_reverse] at hmem
      exact hbase.noStar hmem
    rw [List.reverse_append, List.reverse_replicate,
      List.takeWhile_append_of_pos (by simp), hnone]
    simp
  have hpos := List.length_pos_iff.mpr hbase.nonempty
  unfold splitPointers
  simp only [hchars, hstars, List.length_append, List.length_replicate]
  rw [if_neg (by omega), Nat.add_sub_cancel, List.take_left, String.ofList_toList]

/-! ## The table of types -/

/-- The tables agree on the types and their names. -/
structure SameNamedTypes (ast ast' : AST) : Prop where
  typesUsed : ast'.typesUsed = ast.typesUsed
  typeId : ∀ i, (ast'.typeInfos i).typeId = (ast.typeInfos i).typeId
  name : ∀ i, (ast'.typeInfos i).name = (ast.typeInfos i).name
  typeMap : ∀ i, (ast'.scopes i).typeMap = (ast.scopes i).typeMap

/-- The tables that are reached from those of the constructor: types are created under names
from the source, and nothing else changes their names. -/
inductive NamesReached : AST → Prop where
  | initial : NamesReached AST.initial
  | createType {ast : AST} (name : String) (scopeId : ScopeId) :
      NamesReached ast → IsTypeName name → NamesReached (ast.createType name scopeId).2
  | other {ast ast' : AST} : NamesReached ast → SameNamedTypes ast ast' → NamesReached ast'

/-- An entry of a scope leads to the type of that name. -/
structure Named (ast : AST) : Prop where
  mapped : ∀ i name id, (ast.scopes i).typeMap name = some id → id < ast.typesUsed ∧
    IsTypeName name ∧ (ast.typeInfos id).typeId = ⟨id, 0⟩ ∧ (ast.typeInfos id).name = name

theorem Named.createType (h : Named ast) {name : String} (hname : IsTypeName name)
    (scopeId : ScopeId) : Named (ast.createType name scopeId).2 := by
  refine ⟨fun i other id hmap => ?_⟩
  by_cases hnew : i = scopeId ∧ other = name
  · obtain ⟨rfl, rfl⟩ := hnew
    obtain rfl : ast.typesUsed = id := by simpa [AST.createType] using hmap
    exact ⟨Nat.lt_succ_self _, hname, by simp [AST.createType], by simp [AST.createType]⟩
  · have hold : (ast.scopes i).typeMap other = some id := by
      rw [← hmap]
      by_cases hi : i = scopeId
      · have hother : other ≠ name := fun heq => hnew ⟨hi, heq⟩
        subst hi
        simp [AST.createType, hother]
      · simp [AST.createType, hi]
    obtain ⟨hlt, hother, htypeId, hinfo⟩ := h.mapped i other id hold
    refine ⟨Nat.lt_succ_of_lt hlt, hother, ?_, ?_⟩
    · simpa [AST.createType, Nat.ne_of_lt hlt] using htypeId
    · simpa [AST.createType, Nat.ne_of_lt hlt] using hinfo

theorem Named.of_same (h : Named ast) (hsame : SameNamedTypes ast ast') : Named ast' := by
  refine ⟨fun i name id hmap => ?_⟩
  rw [hsame.typeMap] at hmap
  rw [hsame.typesUsed, hsame.typeId, hsame.name]
  exact h.mapped i name id hmap

theorem Named.empty : Named ({} : AST) := ⟨fun _ _ _ h => by cases h⟩

theorem Named.addPrimitive (h : Named ast) {primitive : String × ℕ}
    (hname : IsTypeName primitive.1) : Named (ast.addPrimitive primitive) := by
  refine (h.createType hname globalScope).of_same ⟨rfl, fun i => ?_, fun i => ?_, fun _ => rfl⟩
  all_goals
    by_cases heq : i = ast.typesUsed
    · subst heq
      simp [AST.addPrimitive, AST.createType]
    · simp [AST.addPrimitive, AST.createType, heq]

theorem Named.foldl_addPrimitive {primitives : List (String × ℕ)} (h : Named ast)
    (hnames : ∀ primitive ∈ primitives, IsTypeName primitive.1) :
    Named (primitives.foldl AST.addPrimitive ast) := by
  induction primitives generalizing ast with
  | nil => exact h
  | cons primitive rest ih =>
      exact ih (h.addPrimitive (hnames primitive (by simp))) fun other hmem =>
        hnames other (by simp [hmem])

theorem Named.initial : Named AST.initial := by
  have hscope : SameNamedTypes ({} : AST) (({} : AST).createScope globalScope).2 := by
    refine ⟨rfl, fun _ => rfl, fun _ => rfl, fun i => ?_⟩
    by_cases heq : i = 0 <;> simp [AST.createScope, heq]
  have hnames : ∀ primitive ∈ primitiveTypes, IsTypeName primitive.1 := by decide
  refine ((Named.empty.of_same hscope).foldl_addPrimitive hnames).of_same
    ⟨rfl, fun _ => rfl, fun _ => rfl, fun i => ?_⟩
  by_cases heq : i = globalScope
  · subst heq
    simp [AST.initial]
  · simp [AST.initial, heq]

theorem NamesReached.named (h : NamesReached ast) : Named ast := by
  induction h with
  | initial => exact Named.initial
  | createType name scopeId _ hname ih => exact ih.createType hname scopeId
  | other _ hsame ih => exact ih.of_same hsame

theorem SameNamedTypes.trans {ast'' : AST} (h : SameNamedTypes ast ast')
    (h' : SameNamedTypes ast' ast'') : SameNamedTypes ast ast'' :=
  ⟨h'.typesUsed.trans h.typesUsed, fun i => (h'.typeId i).trans (h.typeId i),
    fun i => (h'.name i).trans (h.name i), fun i => (h'.typeMap i).trans (h.typeMap i)⟩

theorem sameNamedTypes_setTypeSize (typeInfo : Option ℕ) (size : ℕ) :
    SameNamedTypes ast (ast.setTypeSize typeInfo size) := by
  cases typeInfo with
  | none => exact ⟨rfl, fun _ => rfl, fun _ => rfl, fun _ => rfl⟩
  | some id =>
      refine ⟨rfl, fun i => ?_, fun i => ?_, fun _ => rfl⟩
      all_goals
        rw [setTypeSize_typeInfos]
        split <;> rfl

theorem sameNamedTypes_laidOut (scopeId : ScopeId) (s : ℕ) :
    SameNamedTypes (createStructType ast scopeId s) (laidOut scopeId ast s) :=
  ⟨rfl, fun _ => rfl, fun _ => rfl, fun _ => rfl⟩

/-- An attempt at a structure is such a step. -/
theorem NamesReached.attempt (h : NamesReached ast) (scopeId : ScopeId) {s : ℕ}
    (hname : IsTypeName (ast.structures s).name) :
    NamesReached (TinCompiler.attempt scopeId ast s) := by
  have hcreated : NamesReached (createStructType ast scopeId s) := by
    unfold createStructType
    split
    · exact h
    · refine (h.createType _ scopeId hname).other ⟨rfl, fun i => ?_, fun i => ?_, fun _ => rfl⟩
      all_goals
        by_cases heq : i = ast.typesUsed
        · subst heq
          simp [AST.createType]
        · simp [AST.createType, heq]
  cases hcomplete : (ast.structures s).complete with
  | true => rwa [attempt_of_complete scopeId hcomplete]
  | false =>
      by_cases hvalid : MembersValid (createStructType ast scopeId s) scopeId s
      · obtain ⟨last, -, hattempt⟩ := attempt_of_valid hcomplete hvalid
        rw [hattempt]
        have hsize := (@sameNamedTypes_laidOut ast scopeId s).trans
          (sameNamedTypes_setTypeSize ((laidOut scopeId ast s).structures s).typeInfo
            (alignUp last.1 last.2))
        exact hcreated.other ⟨hsize.typesUsed, hsize.typeId, hsize.name, hsize.typeMap⟩
      · rw [attempt_of_invalid hcomplete hvalid]
        exact hcreated.other (sameNamedTypes_laidOut scopeId s)

/-! ## Round trips -/

/-- What `convertFullType` computes from a spelling. -/
theorem convertFullType_spelled (h : Named ast) {base : String} {scopeId : ScopeId} {id : ℕ}
    (hfind : ast.findType base scopeId = some id) (n : ℕ) :
    ast.convertFullType (spelled base n) scopeId = ⟨id, n % 2 ^ 8⟩ := by
  obtain ⟨i, hmap⟩ := exists_of_searchFrom hfind
  obtain ⟨-, hbase, htypeId, -⟩ := h.mapped i base id hmap
  rw [convertFullType, splitPointers_spelled hbase]
  simp only [hfind, htypeId, TypeId.setPointerLevel]

theorem nameOfType_eq (h : Named ast) {base : String} {scopeId : ScopeId} {id : ℕ}
    (hfind : ast.findType base scopeId = some id) (n : ℕ) :
    ast.nameOfType ⟨id, n⟩ = spelled base n := by
  obtain ⟨i, hmap⟩ := exists_of_searchFrom hfind
  obtain ⟨-, -, -, hname⟩ := h.mapped i base id hmap
  rw [nameOfType, spelled]
  exact congrArg (· ++ _) hname

/-- The spelling with `n` asterisks is read as the type with that base and that level, which is
printed so, and no type is spelled with fewer asterisks as well. -/
structure RoundTrips (ast : AST) (scopeId : ScopeId) (base : String) (id n : ℕ) : Prop where
  level : ast.convertFullType (spelled base n) scopeId = ⟨id, n⟩
  name : ast.convertFullType (ast.nameOfType ⟨id, n⟩) scopeId = ⟨id, n⟩
  distinct : ∀ base' id' n', ast.findType base' scopeId = some id' → n' < n →
    ast.convertFullType (spelled base' n') scopeId ≠ ast.convertFullType (spelled base n) scopeId

theorem roundTrips_iff (h : Named ast) {base : String} {scopeId : ScopeId} {id : ℕ}
    (hfind : ast.findType base scopeId = some id) (n : ℕ) :
    RoundTrips ast scopeId base id n ↔ n < 2 ^ 8 := by
  have hspelled := convertFullType_spelled h hfind n
  constructor
  · intro htrips
    have hlevel : n % 2 ^ 8 = n := congrArg TypeId.pointerLevel (hspelled.symm.trans htrips.level)
    rw [← hlevel]
    exact Nat.mod_lt _ (by decide)
  · intro hlt
    have hlevel : n % 2 ^ 8 = n := Nat.mod_eq_of_lt hlt
    rw [hlevel] at hspelled
    refine ⟨hspelled, ?_, fun base' id' n' hfind' hn' heq => ?_⟩
    · rw [nameOfType_eq h hfind, hspelled]
    · rw [hspelled, convertFullType_spelled h hfind', Nat.mod_eq_of_lt (by omega)] at heq
      exact absurd (congrArg TypeId.pointerLevel heq) (by simp only; omega)

/-- The types of the program have a level of 8 bits, and these all survive. -/
theorem convertFullType_roundTrip_iff (h : NamesReached ast) (scopeId : ScopeId) :
    (∀ base id n, ast.findType base scopeId = some id →
      (RoundTrips ast scopeId base id n ↔ n < 2 ^ 8)) ∧
    ∀ type : TypeId, type.pointerLevel < 2 ^ 8 →
      ast.findType (ast.getType type.base).name scopeId = some type.index →
      ast.convertFullType (ast.nameOfType type) scopeId = type :=
  ⟨fun _ _ n hfind => roundTrips_iff h.named hfind n,
    fun _ hlevel hfind => ((roundTrips_iff h.named hfind _).mpr hlevel).name⟩

theorem convertFullType_roundTrip_iff_initial :
    RoundTrips AST.initial globalScope "int" 1 255 ∧
      AST.initial.convertFullType (AST.initial.nameOfType ⟨2, 2⟩) globalScope = ⟨2, 2⟩ :=
  have hreached := convertFullType_roundTrip_iff .initial globalScope
  ⟨(hreached.1 "int" 1 255 (by decide)).mpr (by decide), hreached.2 ⟨2, 2⟩ (by decide) (by decide)⟩

/-- `int` with 256 asterisks is `int`. -/
theorem not_roundTrips : AST.initial.findType "int" globalScope = some 1 ∧
    AST.initial.convertFullType (spelled "int" 256) globalScope =
      AST.initial.convertFullType (spelled "int" 0) globalScope ∧
    ¬ RoundTrips AST.initial globalScope "int" 1 256 := by
  have hfind : AST.initial.findType "int" globalScope = some 1 := by decide
  have hsame : AST.initial.convertFullType (spelled "int" 256) globalScope =
      AST.initial.convertFullType (spelled "int" 0) globalScope :=
    calc AST.initial.convertFullType (spelled "int" 256) globalScope
        = ⟨1, 256 % 2 ^ 8⟩ := convertFullType_spelled Named.initial hfind 256
      _ = ⟨1, 0 % 2 ^ 8⟩ := rfl
      _ = AST.initial.convertFullType (spelled "int" 0) globalScope :=
        (convertFullType_spelled Named.initial hfind 0).symm
  exact ⟨hfind, hsame, fun htrips => htrips.distinct "int" 1 0 hfind (by decide) hsame.symm⟩

end AST

end TinCompiler
