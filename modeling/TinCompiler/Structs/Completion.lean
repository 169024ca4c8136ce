import TinCompiler.Structs.Tables
import Mathlib.Logic.Relation
import Mathlib.Data.List.Induction

/-!
# When a completed structure is sound

`CheckStructs` marks a structure complete as soon as every member type can be found,
and a type can be found before its size is known.  An attempt is `Timely` when it
does not meet a member type of size `0` while all of them are found.  One attempt
completes a structure soundly exactly when it is timely (`timely_iff_sound`), and a
run of timely attempts keeps containment by value well founded (`Founded`).
-/

namespace TinCompiler

variable {ast final : AST} {scopeId : ScopeId}

/-- `s` has a member of type `t`. -/
def Holds (ast : AST) (s t : ℕ) : Prop :=
  ∃ member ∈ (ast.structures s).members, ast.structOf member.typeId = some t

/-- The condition on one attempt: if the types of all members are found, no one of
them has size `0` yet. -/
def Timely (scopeId : ScopeId) (ast : AST) (s : ℕ) : Prop :=
  MembersValid (createStructType ast scopeId s) scopeId s →
    ∀ member ∈ (ast.structures s).members,
      ast.sizeOfType ((createStructType ast scopeId s).convertFullType member.typeString scopeId) ≠ 0

instance (ast : AST) (s : ℕ) : Decidable (Timely scopeId ast s) :=
  inferInstanceAs (Decidable (_ → _))

/-- The attempt on `s` in the tables `ast`, seen from the tables `final` of the end of
the run: if it completes `s`, every member type had its final size, not `0`, and every
structure held by value was complete. -/
def SoundCompletion (scopeId : ScopeId) (final ast : AST) (s : ℕ) : Prop :=
  ((attempt scopeId ast s).structures s).complete = true →
    ∀ member ∈ ((attempt scopeId ast s).structures s).members,
      ast.sizeOfType member.typeId ≠ 0 ∧
      final.sizeOfType member.typeId = ast.sizeOfType member.typeId ∧
      ∀ t, final.structOf member.typeId = some t → (ast.structures t).complete = true

/-! ## One attempt -/

/-- When no type is invalid, the members keep their order and get the types found. -/
theorem layoutMembers_ok_types {members : List Member} :
    ∀ {offset alignment : ℕ} {last : ℕ × ℕ},
      (layoutMembers ast scopeId members offset alignment).2 = .ok last →
      (layoutMembers ast scopeId members offset alignment).1.map Member.typeId =
        members.map fun member => ast.convertFullType member.typeString scopeId := by
  induction members with
  | nil => exact fun _ => rfl
  | cons member rest ih =>
      intro offset alignment last hlast
      by_cases hvalid : (ast.convertFullType member.typeString scopeId).Valid
      · simp only [layoutMembers, hvalid, if_true, List.map_cons, List.cons.injEq, true_and] at hlast ⊢
        exact ih hlast
      · simp [layoutMembers, hvalid] at hlast

@[simp] theorem createStructType_sizeOfType (s : ℕ) (type : TypeId) :
    (createStructType ast scopeId s).sizeOfType type = ast.sizeOfType type := by
  simp [AST.sizeOfType, AST.getType]

/-- A successful attempt completes the structure and gives its members the types found. -/
theorem attempt_completes {s : ℕ} (hincomplete : (ast.structures s).complete = false)
    (hvalid : MembersValid (createStructType ast scopeId s) scopeId s) :
    ((attempt scopeId ast s).structures s).complete = true ∧
    ((attempt scopeId ast s).structures s).members.map Member.typeId =
      (ast.structures s).members.map fun member =>
        (createStructType ast scopeId s).convertFullType member.typeString scopeId := by
  obtain ⟨last, hlast, hattempt⟩ := attempt_of_valid hincomplete hvalid
  rw [hattempt]
  refine ⟨by simp, ?_⟩
  rw [setComplete_structures_self, setTypeSize_structures]
  simpa [laidOut] using layoutMembers_ok_types hlast

theorem membersValid_of_completes {s : ℕ} (hincomplete : (ast.structures s).complete = false)
    (hcomplete : ((attempt scopeId ast s).structures s).complete = true) :
    MembersValid (createStructType ast scopeId s) scopeId s := by
  by_contra hinvalid
  rw [attempt_of_invalid hincomplete hinvalid] at hcomplete
  simp [laidOut, hincomplete] at hcomplete

/-- A structure held by value through a type that has a size is complete. -/
theorem TableInvariant.complete_of_size (h : TableInvariant ast) {type : TypeId} {t : ℕ}
    (hsize : ast.sizeOfType type ≠ 0) (hstruct : ast.structOf type = some t) :
    (ast.structures t).complete = true := by
  unfold AST.structOf AST.getType at hstruct
  split at hstruct
  · next hlevel =>
      have hinfo := (h.owned t type.index).mpr hstruct
      refine h.sized t type.index hinfo ?_
      simpa [AST.sizeOfType, AST.getType, hlevel] using hsize
  · cases hstruct

theorem Extends.structOf (h : Extends ast final) (htable : TableInvariant ast) {type : TypeId}
    (hsize : ast.sizeOfType type ≠ 0) : final.structOf type = ast.structOf type := by
  unfold AST.structOf AST.getType
  split
  · next hlevel =>
      refine h.astStruct _ (Nat.lt_of_not_le fun hle => hsize ?_)
      simpa [AST.sizeOfType, AST.getType, hlevel] using (htable.fresh _ hle).1
  · rfl

/-- One attempt on an incomplete structure is sound exactly when it is timely. -/
theorem timely_iff_sound {s : ℕ} (h : TableInvariant ast)
    (hincomplete : (ast.structures s).complete = false)
    (hfinal : Extends (attempt scopeId ast s) final) :
    SoundCompletion scopeId final ast s ↔ Timely scopeId ast s := by
  have hextends : Extends ast final := (extends_attempt h s).trans hfinal
  constructor
  · intro hsound hvalid member hmember
    obtain ⟨hcomplete, htypes⟩ := attempt_completes hincomplete hvalid
    have hmem : (createStructType ast scopeId s).convertFullType member.typeString scopeId ∈
        ((attempt scopeId ast s).structures s).members.map Member.typeId := by
      rw [htypes]
      exact List.mem_map_of_mem hmember
    obtain ⟨laid, hlaid, heq⟩ := List.mem_map.mp hmem
    rw [← heq]
    exact (hsound hcomplete laid hlaid).1
  · intro htimely hcomplete laid hlaid
    have hvalid := membersValid_of_completes hincomplete hcomplete
    obtain ⟨-, htypes⟩ := attempt_completes hincomplete hvalid
    have hmem : laid.typeId ∈ (ast.structures s).members.map fun member =>
        (createStructType ast scopeId s).convertFullType member.typeString scopeId := by
      rw [← htypes]
      exact List.mem_map_of_mem hlaid
    obtain ⟨member, hmember, heq⟩ := List.mem_map.mp hmem
    have hsize : ast.sizeOfType laid.typeId ≠ 0 := by
      rw [← heq]
      exact htimely hvalid member hmember
    refine ⟨hsize, hextends.sizeOfType hsize, fun t hstruct => ?_⟩
    rw [hextends.structOf h hsize] at hstruct
    exact h.complete_of_size hsize hstruct

/-! ## Containment by value -/

/-- Everything a complete structure holds by value is complete and has a size, and
following the members of a complete structure comes to an end. -/
structure Founded (ast : AST) : Prop where
  sized : ∀ s, (ast.structures s).complete = true → ∀ member ∈ (ast.structures s).members,
    ast.sizeOfType member.typeId ≠ 0
  acc : ∀ s, (ast.structures s).complete = true → Acc (fun t s => Holds ast s t) s

namespace Founded

theorem holds_complete (h : Founded ast) (htable : TableInvariant ast) {s t : ℕ}
    (hcomplete : (ast.structures s).complete = true) (hholds : Holds ast s t) :
    (ast.structures t).complete = true := by
  obtain ⟨member, hmember, hstruct⟩ := hholds
  exact htable.complete_of_size (h.sized s hcomplete member hmember) hstruct

theorem holds_iff (h : Founded ast) (htable : TableInvariant ast) (hextends : Extends ast final)
    {s t : ℕ} (hcomplete : (ast.structures s).complete = true) :
    Holds final s t ↔ Holds ast s t := by
  unfold Holds
  rw [hextends.complete s hcomplete]
  refine exists_congr fun member => and_congr_right fun hmember => ?_
  rw [hextends.structOf htable (h.sized s hcomplete member hmember)]

/-- What was complete stays accessible. -/
theorem acc_of_extends (h : Founded ast) (htable : TableInvariant ast)
    (hextends : Extends ast final) {s : ℕ} (hcomplete : (ast.structures s).complete = true) :
    Acc (fun t s => Holds final s t) s := by
  have hacc := h.acc s hcomplete
  induction hacc with
  | intro s _ ih =>
      refine Acc.intro s fun t hholds => ?_
      rw [h.holds_iff htable hextends hcomplete] at hholds
      exact ih t hholds (h.holds_complete htable hcomplete hholds)

/-- A structure that holds itself, directly or through others, is not complete. -/
theorem not_complete_of_cycle (h : Founded ast) {s : ℕ}
    (hcycle : Relation.TransGen (Holds ast) s s) : (ast.structures s).complete = false := by
  by_contra hcomplete
  have hacc := (h.acc s (by simpa using hcomplete)).transGen
  have hswap : Relation.TransGen (fun t s => Holds ast s t) s s :=
    Relation.transGen_swap.mp hcycle
  clear hcomplete hcycle
  induction hacc with
  | intro s _ ih => exact ih s hswap hswap

end Founded

theorem attempt_structures_of_ne {s t : ℕ} (hne : t ≠ s) :
    (attempt scopeId ast s).structures t = ast.structures t := by
  cases hcomplete : (ast.structures s).complete with
  | true => rw [attempt_of_complete scopeId hcomplete]
  | false =>
      by_cases hvalid : MembersValid (createStructType ast scopeId s) scopeId s
      · obtain ⟨last, -, hattempt⟩ := attempt_of_valid hcomplete hvalid
        rw [hattempt, setComplete_structures_of_ne _ _ hne, setTypeSize_structures, laidOut,
          setMembers_structures_of_ne _ _ _ hne, createStructType_structures_of_ne hne]
      · rw [attempt_of_invalid hcomplete hvalid, laidOut, setMembers_structures_of_ne _ _ _ hne,
          createStructType_structures_of_ne hne]

theorem Founded.attempt (h : Founded ast) (htable : TableInvariant ast) {s : ℕ}
    (hincomplete : (ast.structures s).complete = false) (htimely : Timely scopeId ast s) :
    Founded (attempt scopeId ast s) := by
  have hextends : Extends ast (TinCompiler.attempt scopeId ast s) := extends_attempt htable s
  have hsound := (timely_iff_sound htable hincomplete (.refl _)).mpr htimely
  have hnew : ∀ {t}, t ≠ s →
      ((TinCompiler.attempt scopeId ast s).structures t).complete = true →
      (ast.structures t).complete = true := by
    intro t hne hcomplete
    rwa [attempt_structures_of_ne hne] at hcomplete
  constructor
  · intro t hcomplete member hmember
    by_cases heq : t = s
    · subst heq
      obtain ⟨hsize, hfinal, -⟩ := hsound hcomplete member hmember
      rwa [hfinal]
    · rw [attempt_structures_of_ne heq] at hmember
      have hsize := h.sized t (hnew heq hcomplete) member hmember
      rwa [hextends.sizeOfType hsize]
  · intro t hcomplete
    by_cases heq : t = s
    · -- every member was complete before this attempt
      subst heq
      refine Acc.intro t fun u hholds => ?_
      obtain ⟨member, hmember, hstruct⟩ := hholds
      exact h.acc_of_extends htable hextends
        ((hsound hcomplete member hmember).2.2 u hstruct)
    · exact h.acc_of_extends htable hextends (hnew heq hcomplete)

/-- Every attempt that the run makes on an incomplete structure is timely. -/
def TimelyRun (scopeId : ScopeId) (ast : AST) (order : List ℕ) : Prop :=
  ∀ before s after, order = before ++ s :: after →
    ((attempts scopeId ast before).structures s).complete = false →
    Timely scopeId (attempts scopeId ast before) s

theorem timelyRun_nil : TimelyRun scopeId ast [] := by
  intro before s after horder
  simp at horder

theorem timelyRun_cons {s : ℕ} {order : List ℕ} :
    TimelyRun scopeId ast (s :: order) ↔
      ((ast.structures s).complete = false → Timely scopeId ast s) ∧
        TimelyRun scopeId (attempt scopeId ast s) order := by
  constructor
  · intro h
    refine ⟨h [] s order rfl, fun before t after horder => ?_⟩
    exact h (s :: before) t after (by rw [horder]; rfl)
  · rintro ⟨hfirst, hrest⟩ before t after horder
    cases before with
    | nil =>
        simp only [List.nil_append, List.cons.injEq] at horder
        obtain ⟨rfl, -⟩ := horder
        exact hfirst
    | cons u before =>
        simp only [List.cons_append, List.cons.injEq] at horder
        obtain ⟨rfl, rfl⟩ := horder
        exact hrest before t after rfl

instance decidableTimelyRun (scopeId : ScopeId) :
    ∀ (ast : AST) (order : List ℕ), Decidable (TimelyRun scopeId ast order)
  | _, [] => isTrue timelyRun_nil
  | ast, s :: order =>
      have := decidableTimelyRun scopeId (attempt scopeId ast s) order
      decidable_of_iff _ timelyRun_cons.symm

/-- Every structure the run completes is completed soundly, seen from its end. -/
def SoundRun (scopeId : ScopeId) (ast : AST) (order : List ℕ) : Prop :=
  ∀ before s after, order = before ++ s :: after →
    ((attempts scopeId ast before).structures s).complete = false →
    SoundCompletion scopeId (attempts scopeId ast order) (attempts scopeId ast before) s

theorem soundRun_iff_timelyRun (h : TableInvariant ast) (order : List ℕ) :
    SoundRun scopeId ast order ↔ TimelyRun scopeId ast order := by
  refine forall_congr' fun before => forall_congr' fun s => forall_congr' fun after =>
    forall_congr' fun horder => forall_congr' fun hincomplete => ?_
  refine timely_iff_sound (h.attempts before) hincomplete ?_
  rw [horder, attempts_append]
  exact extends_attempts ((h.attempts before).attempt s) after

theorem TimelyRun.of_append {first second : List ℕ}
    (h : TimelyRun scopeId ast (first ++ second)) : TimelyRun scopeId ast first := by
  intro before s after horder
  exact h before s (after ++ second) (by simp [horder])

theorem Founded.attempts (h : Founded ast) (htable : TableInvariant ast) {order : List ℕ}
    (htimely : TimelyRun scopeId ast order) : Founded (attempts scopeId ast order) := by
  induction order using List.reverseRecOn with
  | nil => exact h
  | append_singleton order s ih =>
      rw [attempts_snoc]
      have hfounded := ih htimely.of_append
      cases hcomplete : ((TinCompiler.attempts scopeId ast order).structures s).complete with
      | true => rwa [attempt_of_complete scopeId hcomplete]
      | false =>
          exact hfounded.attempt (htable.attempts order) hcomplete
            (htimely order s [] rfl hcomplete)

end TinCompiler
