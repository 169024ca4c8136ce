import Mathlib.Data.Set.Insert
import Mathlib.Logic.Relation

/-!
# Structured control flow laid out in a graph

The code of a block of statements is seen as a graph: positions, and where control can go
from each of them.  `Laid` says that the code of a block lies between two positions, with
its jumps where the structure of the block wants them.  What is then known of the paths
through the code is read off the structure: whether the block can be left at its end
(`completes`), and whether a return without a value can be met (`returnsBare`).

* `Laid.meets`: every path from the start of the block stays in its code until it leaves the
  block in one of the ways of its structure, and a return that it meets is a bare one or has
  its result behind it on the path.
* `Laid.reaches`, `Laid.reachesBare`: these ways are really there.
-/

/-- A block of statements; what is behind a statement that never goes on is not part of it. -/
inductive Control where
  | done
  /-- code without jumps -/
  | plain (rest : Control)
  | ifThen (body rest : Control)
  | ifElse (body other rest : Control)
  | loop (body rest : Control)
  | breaks
  | continues
  | returns (value : Bool)
deriving DecidableEq, Repr

namespace Control

/-- Some path leaves the block at its end. -/
def completes : Control → Bool
  | done => true
  | plain rest => rest.completes
  | ifThen _ rest => rest.completes
  | ifElse body other rest => (body.completes || other.completes) && rest.completes
  | loop _ rest => rest.completes
  | breaks | continues | returns _ => false

/-- Some path comes to a return without a value. -/
def returnsBare : Control → Bool
  | done | breaks | continues => false
  | plain rest => rest.returnsBare
  | ifThen body rest => body.returnsBare || rest.returnsBare
  | ifElse body other rest =>
      body.returnsBare || other.returnsBare ||
        ((body.completes || other.completes) && rest.returnsBare)
  | loop body rest => body.returnsBare || rest.returnsBare
  | returns value => !value

end Control

universe u

/-- Where control goes from each position of a code. -/
structure FlowGraph (α : Type u) where
  next : α → Set α
  /-- the positions that hold an instruction -/
  code : Set α
  /-- the instructions that leave the code for good -/
  returns : Set α
  /-- the positions of the code for the value of the return at a position -/
  result : List α → α → Prop

namespace FlowGraph

variable {α : Type u} (G : FlowGraph α)

def Step (i j : α) : Prop := i ∈ G.code ∧ j ∈ G.next i

/-- Control goes from `i` to `j` and nowhere else. -/
def Jumps (i j : α) : Prop := i ∈ G.code ∧ i ∉ G.returns ∧ G.next i = {j}

def Branches (i j k : α) : Prop := i ∈ G.code ∧ i ∉ G.returns ∧ G.next i = {j, k}

/-- Code without jumps, with the positions on the way. -/
inductive Segment : α → List α → α → Prop where
  | nil (s : α) : Segment s [] s
  | cons {s s' t : α} {l : List α} : G.Jumps s s' → Segment s' l t → Segment s (s :: l) t

/-- The code of the block lies between the two positions; `loop` has the places where
`continue` and `break` go. -/
def Laid : Option (α × α) → Control → α → α → Prop
  | _, .done, s, t => ∃ l, G.Segment s l t
  | loop, .plain rest, s, t => ∃ l a, G.Segment s l a ∧ Laid loop rest a t
  | loop, .ifThen body rest, s, t => ∃ l a b m, G.Segment s l a ∧ G.Branches a b m ∧
      Laid loop body b m ∧ Laid loop rest m t
  | loop, .ifElse body other rest, s, t => ∃ l a b o e m, G.Segment s l a ∧ G.Branches a b o ∧
      Laid loop body b e ∧ G.Jumps e m ∧ Laid loop other o m ∧ Laid loop rest m t
  | loop, .loop body rest, s, t => ∃ l a b e m, G.Segment s l a ∧ G.Branches a b m ∧
      Laid (some (s, m)) body b e ∧ G.Jumps e s ∧ Laid loop rest m t
  | loop, .breaks, s, _ => ∃ l a c k, loop = some (c, k) ∧ G.Segment s l a ∧ G.Jumps a k
  | loop, .continues, s, _ => ∃ l a c k, loop = some (c, k) ∧ G.Segment s l a ∧ G.Jumps a c
  | _, .returns value, s, _ => ∃ l m l' a, G.Segment s l m ∧ G.Segment m l' a ∧ a ∈ G.code ∧
      a ∈ G.returns ∧ G.next a = ∅ ∧ if value then G.result l a else ∀ l, ¬ G.result l a

variable {G} {s t a : α} {l : List α}

theorem Segment.reaches (h : G.Segment s l t) : Relation.ReflTransGen G.Step s t := by
  induction h with
  | nil s => exact .refl
  | cons hjumps _ ih => exact .head ⟨hjumps.1, hjumps.2.2 ▸ rfl⟩ ih

theorem Jumps.reaches (h : G.Jumps s t) : Relation.ReflTransGen G.Step s t :=
  .single ⟨h.1, h.2.2 ▸ rfl⟩

theorem Branches.reaches_left {b : α} (h : G.Branches s t b) :
    Relation.ReflTransGen G.Step s t :=
  .single ⟨h.1, h.2.2 ▸ .inl rfl⟩

theorem Branches.reaches_right {b : α} (h : G.Branches s b t) :
    Relation.ReflTransGen G.Step s t :=
  .single ⟨h.1, h.2.2 ▸ .inr rfl⟩

theorem Segment.append {m : α} {l' : List α} (h : G.Segment s l m) (h' : G.Segment m l' t) :
    G.Segment s (l ++ l') t := by
  induction h with
  | nil s => exact h'
  | cons hjumps _ ih => exact .cons hjumps (ih h')

/-- A segment goes on from each of its positions. -/
theorem Segment.jumps_of_mem (h : G.Segment s l t) {x : α} (hx : x ∈ l) : ∃ y, G.Jumps x y := by
  induction h with
  | nil s => exact absurd hx List.not_mem_nil
  | cons hjumps _ ih =>
      rcases List.mem_cons.mp hx with rfl | hx
      · exact ⟨_, hjumps⟩
      · exact ih hx

/-- Code behind a block belongs to its end. -/
theorem Laid.extend (control : Control) : ∀ {loop : Option (α × α)} {s t t' : α},
    G.Laid loop control s t → G.Segment t l t' → G.Laid loop control s t' := by
  induction control with
  | done =>
      rintro loop s t t' ⟨l', hseg'⟩ hseg
      exact ⟨_, hseg'.append hseg⟩
  | plain rest ih =>
      rintro loop s t t' ⟨l', a, hseg', hrest⟩ hseg
      exact ⟨l', a, hseg', ih hrest hseg⟩
  | ifThen body rest _ ih =>
      rintro loop s t t' ⟨l', a, b, m, hseg', hbranch, hbody, hrest⟩ hseg
      exact ⟨l', a, b, m, hseg', hbranch, hbody, ih hrest hseg⟩
  | ifElse body other rest _ _ ih =>
      rintro loop s t t' ⟨l', a, b, o, e, m, hseg', hbranch, hbody, hjump, hother, hrest⟩ hseg
      exact ⟨l', a, b, o, e, m, hseg', hbranch, hbody, hjump, hother, ih hrest hseg⟩
  | loop body rest _ ih =>
      rintro loop s t t' ⟨l', a, b, e, m, hseg', hbranch, hbody, hjump, hrest⟩ hseg
      exact ⟨l', a, b, e, m, hseg', hbranch, hbody, hjump, ih hrest hseg⟩
  | breaks => exact fun h _ => h
  | continues => exact fun h _ => h
  | returns value => exact fun h _ => h

/-! ## Staying inside -/

variable (G) in
/-- Control stays in the states of `I`, a set of visited positions with a position each, until
it comes to an exit; a return there is backed by its result, unless bare ones are expected. -/
def Confined (bare : Prop) (exit : α → Prop) (I : Set α → α → Prop) : Prop :=
  ∀ visited i, I visited i → i ∈ G.code ∧
    (i ∈ G.returns → bare ∨ ∃ l, G.result l i ∧ ∀ x ∈ l, x ∈ visited) ∧
    ∀ j ∈ G.next i, exit j ∨ I (insert i visited) j

variable (G) in
/-- The largest such set of states. -/
def Inside (bare : Prop) (exit : α → Prop) (visited : Set α) (i : α) : Prop :=
  ∃ I, G.Confined bare exit I ∧ I visited i

variable (G) in
def Holds (bare : Prop) (exit : α → Prop) (s : α) : Prop := ∀ visited, G.Inside bare exit visited s

variable (G) in
/-- At an exit, or inside. -/
def Meets (bare : Prop) (exit : α → Prop) (s : α) : Prop := exit s ∨ G.Holds bare exit s

variable {bare bare' : Prop} {exit exit' : α → Prop}

theorem confined_inside : G.Confined bare exit (G.Inside bare exit) := by
  rintro visited i ⟨I, hI, hi⟩
  obtain ⟨hcode, hreturns, hnext⟩ := hI visited i hi
  exact ⟨hcode, hreturns, fun j hj => (hnext j hj).imp_right fun h => ⟨I, hI, h⟩⟩

theorem Inside.mono {visited : Set α} (hbare : bare → bare') (h : G.Inside bare exit visited s) :
    G.Inside bare' exit visited s := by
  obtain ⟨I, hI, hs⟩ := h
  refine ⟨I, fun visited i hi => ?_, hs⟩
  obtain ⟨hcode, hreturns, hnext⟩ := hI visited i hi
  exact ⟨hcode, fun h => (hreturns h).imp_left hbare, hnext⟩

theorem Meets.mono (hbare : bare → bare') (h : G.Meets bare exit s) : G.Meets bare' exit s :=
  h.imp_right fun h visited => (h visited).mono hbare

/-- One instruction, and whatever comes behind it. -/
theorem Holds.of_next (hcode : s ∈ G.code) (hreturns : s ∉ G.returns)
    (hnext : ∀ j ∈ G.next s, G.Meets bare exit j) : G.Holds bare exit s := by
  intro visited
  refine ⟨fun visited i => i = s ∨ G.Inside bare exit visited i, ?_, .inl rfl⟩
  rintro visited i (rfl | hi)
  · exact ⟨hcode, fun h => absurd h hreturns,
      fun j hj => (hnext j hj).imp_right fun h => .inr (h _)⟩
  · obtain ⟨hcode, hreturns, hnext⟩ := confined_inside visited i hi
    exact ⟨hcode, hreturns, fun j hj => (hnext j hj).imp_right .inr⟩

theorem Jumps.holds (h : G.Jumps s t) (ht : G.Meets bare exit t) : G.Holds bare exit s := by
  refine .of_next h.1 h.2.1 fun j hj => ?_
  rw [h.2.2] at hj
  exact hj ▸ ht

theorem Branches.holds {b : α} (h : G.Branches s t b) (ht : G.Meets bare exit t)
    (hb : G.Meets bare exit b) : G.Holds bare exit s := by
  refine .of_next h.1 h.2.1 fun j hj => ?_
  rw [h.2.2] at hj
  rcases hj with rfl | rfl
  · exact ht
  · exact hb

theorem Segment.meets (h : G.Segment s l t) (ht : G.Meets bare exit t) : G.Meets bare exit s := by
  induction h with
  | nil s => exact ht
  | cons hjumps _ ih => exact .inr (hjumps.holds (ih ht))

theorem Segment.holds (h : G.Segment s l t) (ht : G.Holds bare exit t) : G.Holds bare exit s := by
  induction h with
  | nil s => exact ht
  | cons hjumps _ ih => exact hjumps.holds (.inr (ih ht))

/-- What is behind the exits takes over. -/
theorem Meets.trans (h : G.Meets bare exit s) (hexit : ∀ j, exit j → G.Meets bare exit' j) :
    G.Meets bare exit' s := by
  rcases h with h | h
  · exact hexit s h
  refine .inr fun visited => ⟨fun visited i => G.Inside bare exit visited i ∨
    G.Inside bare exit' visited i, ?_, .inl (h visited)⟩
  rintro visited i (hi | hi)
  · obtain ⟨hcode, hreturns, hnext⟩ := confined_inside visited i hi
    refine ⟨hcode, hreturns, fun j hj => ?_⟩
    rcases hnext j hj with hj | hj
    · exact (hexit j hj).imp_right fun h => .inr (h _)
    · exact .inr (.inl hj)
  · obtain ⟨hcode, hreturns, hnext⟩ := confined_inside visited i hi
    exact ⟨hcode, hreturns, fun j hj => (hnext j hj).imp_right .inr⟩

/-- Coming back to the start is no way out. -/
theorem Holds.loop (h : G.Holds bare (fun j => j = s ∨ exit j) s) : G.Holds bare exit s := by
  refine fun visited => ⟨G.Inside bare fun j => j = s ∨ exit j, ?_, h visited⟩
  intro visited i hi
  obtain ⟨hcode, hreturns, hnext⟩ := confined_inside visited i hi
  refine ⟨hcode, hreturns, fun j hj => ?_⟩
  rcases hnext j hj with (rfl | hj) | hj
  · exact .inr (h _)
  · exact .inl hj
  · exact .inr hj

/-- A return that is bare as expected. -/
theorem Holds.of_return (hcode : a ∈ G.code) (hnext : G.next a = ∅) (hbare : bare) :
    G.Holds bare exit a := by
  refine fun visited => ⟨fun _ i => i = a, ?_, rfl⟩
  rintro visited i rfl
  exact ⟨hcode, fun _ => .inl hbare, by simp [hnext]⟩

/-- Every path through a segment has visited all of it at its end. -/
theorem Segment.holds_result {l' : List α} (h : G.Segment s l t) (h' : G.Segment t l' a)
    (hcode : a ∈ G.code) (hnext : G.next a = ∅) (hresult : G.result l a) :
    G.Holds bare exit s := by
  refine fun visited => ⟨fun visited i => ∃ front back, front ++ back = l ++ l' ∧
    (∀ x ∈ front, x ∈ visited) ∧ G.Segment i back a, ?_, [], l ++ l', rfl, by simp, h.append h'⟩
  rintro visited i ⟨front, back, heq, hfront, hback⟩
  cases hback with
  | nil _ =>
      refine ⟨hcode, fun _ => .inr ⟨l, hresult, fun x hx => hfront x ?_⟩, by simp [hnext]⟩
      rw [List.append_nil] at heq
      exact heq ▸ List.mem_append_left l' hx
  | cons hjumps hback =>
      refine ⟨hjumps.1, fun h => absurd h hjumps.2.1, fun j hj => .inr ?_⟩
      rw [hjumps.2.2] at hj
      obtain rfl := hj
      refine ⟨front ++ [i], _, by simpa using heq, fun x hx => ?_, hback⟩
      rcases List.mem_append.mp hx with hx | hx
      · exact .inr (hfront x hx)
      · exact .inl (List.mem_singleton.mp hx)

/-! ## Blocks -/

/-- The ways to leave a block that ends at `t`. -/
def Exits (loop : Option (α × α)) (control : Control) (t j : α) : Prop :=
  (∃ c k, loop = some (c, k) ∧ (j = c ∨ j = k)) ∨ (control.completes ∧ j = t)

theorem Exits.of_loop {c k j : α} {loop : Option (α × α)} {control : Control}
    (hloop : loop = some (c, k)) (hj : j = c ∨ j = k) : Exits loop control t j :=
  .inl ⟨c, k, hloop, hj⟩

theorem Laid.meets (control : Control) : ∀ {loop : Option (α × α)} {s t : α},
    G.Laid loop control s t → G.Meets control.returnsBare (Exits loop control t) s := by
  induction control with
  | done =>
      rintro loop s t ⟨l, hseg⟩
      exact hseg.meets (.inl (.inr ⟨rfl, rfl⟩))
  | plain rest ih =>
      rintro loop s t ⟨l, a, hseg, hrest⟩
      exact hseg.meets (ih hrest)
  | ifThen body rest ihbody ihrest =>
      rintro loop s t ⟨l, a, b, m, hseg, hbranch, hbody, hrest⟩
      have hm : G.Meets (Control.ifThen body rest).returnsBare
          (Exits loop (.ifThen body rest) t) m :=
        (ihrest hrest).mono fun h => by simp [Control.returnsBare, h]
      have hb : G.Meets (Control.ifThen body rest).returnsBare (Exits loop body m) b :=
        (ihbody hbody).mono fun h => by simp [Control.returnsBare, h]
      refine hseg.meets (.inr (hbranch.holds (hb.trans fun j hj => ?_) hm))
      rcases hj with hj | ⟨-, rfl⟩
      · exact .inl (.inl hj)
      · exact hm
  | ifElse body other rest ihbody ihother ihrest =>
      rintro loop s t ⟨l, a, b, o, e, m, hseg, hbranch, hbody, hjump, hother, hrest⟩
      have hm (hcompletes : body.completes ∨ other.completes) :
          G.Meets (Control.ifElse body other rest).returnsBare
            (Exits loop (.ifElse body other rest) t) m := by
        have hor : (body.completes || other.completes) = true := by simpa using hcompletes
        refine ((ihrest hrest).mono fun h => ?_).trans fun j hj => .inl ?_
        · simp [Control.returnsBare, hor, h]
        · exact hj.imp_right fun h => ⟨by simp [Control.completes, hor, h.1], h.2⟩
      refine hseg.meets (.inr (hbranch.holds ?_ ?_))
      · refine ((ihbody hbody).mono fun h => by simp [Control.returnsBare, h]).trans fun j hj => ?_
        rcases hj with hj | ⟨hcompletes, rfl⟩
        · exact .inl (.inl hj)
        · exact .inr (hjump.holds (hm (.inl hcompletes)))
      · refine ((ihother hother).mono fun h => by simp [Control.returnsBare, h]).trans fun j hj => ?_
        rcases hj with hj | ⟨hcompletes, rfl⟩
        · exact .inl (.inl hj)
        · exact hm (.inr hcompletes)
  | loop body rest ihbody ihrest =>
      rintro loop s t ⟨l, a, b, e, m, hseg, hbranch, hbody, hjump, hrest⟩
      have hm : G.Meets (Control.loop body rest).returnsBare (Exits loop (.loop body rest) t) m :=
        (ihrest hrest).mono fun h => by simp [Control.returnsBare, h]
      have hback : G.Meets (Control.loop body rest).returnsBare
          (fun j => j = s ∨ Exits loop (.loop body rest) t j) m :=
        hm.trans fun j hj => .inl (.inr hj)
      -- the condition is met again through the jump behind the body and through `continue`
      refine .inr (.loop (hseg.holds (hbranch.holds ?_ hback)))
      refine ((ihbody hbody).mono fun h => by simp [Control.returnsBare, h]).trans fun j hj => ?_
      rcases hj with ⟨c, k, heq, rfl | rfl⟩ | ⟨-, rfl⟩
      · obtain ⟨rfl, rfl⟩ := Prod.mk.inj (Option.some.inj heq)
        exact .inl (.inl rfl)
      · obtain ⟨rfl, rfl⟩ := Prod.mk.inj (Option.some.inj heq)
        exact hback
      · exact .inr (hjump.holds (.inl (.inl rfl)))
  | breaks =>
      rintro loop s t ⟨l, a, c, k, hloop, hseg, hjump⟩
      exact hseg.meets (.inr (hjump.holds (.inl (.of_loop hloop (.inr rfl)))))
  | continues =>
      rintro loop s t ⟨l, a, c, k, hloop, hseg, hjump⟩
      exact hseg.meets (.inr (hjump.holds (.inl (.of_loop hloop (.inl rfl)))))
  | returns value =>
      rintro loop s t ⟨l, m, l', a, hseg, hseg', hcode, -, hnext, hvalue⟩
      cases value with
      | false => exact hseg.meets (hseg'.meets (.inr (.of_return hcode hnext rfl)))
      | true => exact .inr (hseg.holds_result hseg' hcode hnext hvalue)

theorem Laid.reaches (control : Control) : ∀ {loop : Option (α × α)} {s t : α},
    G.Laid loop control s t → control.completes → Relation.ReflTransGen G.Step s t := by
  induction control with
  | done =>
      rintro loop s t ⟨l, hseg⟩ -
      exact hseg.reaches
  | plain rest ih =>
      rintro loop s t ⟨l, a, hseg, hrest⟩ hcompletes
      exact hseg.reaches.trans (ih hrest hcompletes)
  | ifThen body rest _ ihrest =>
      rintro loop s t ⟨l, a, b, m, hseg, hbranch, -, hrest⟩ hcompletes
      exact hseg.reaches.trans (hbranch.reaches_right.trans (ihrest hrest hcompletes))
  | ifElse body other rest ihbody ihother ihrest =>
      rintro loop s t ⟨l, a, b, o, e, m, hseg, hbranch, hbody, hjump, hother, hrest⟩ hcompletes
      simp only [Control.completes, Bool.and_eq_true, Bool.or_eq_true] at hcompletes
      refine hseg.reaches.trans (.trans ?_ (ihrest hrest hcompletes.2))
      rcases hcompletes.1 with h | h
      · exact hbranch.reaches_left.trans ((ihbody hbody h).trans hjump.reaches)
      · exact hbranch.reaches_right.trans (ihother hother h)
  | loop body rest _ ihrest =>
      rintro loop s t ⟨l, a, b, e, m, hseg, hbranch, -, -, hrest⟩ hcompletes
      exact hseg.reaches.trans (hbranch.reaches_right.trans (ihrest hrest hcompletes))
  | breaks => exact fun _ h => nomatch h
  | continues => exact fun _ h => nomatch h
  | returns value => exact fun _ h => nomatch h

variable (G) in
/-- A return without a result can be met from here. -/
def ReachesBare (s : α) : Prop :=
  ∃ a, Relation.ReflTransGen G.Step s a ∧ a ∈ G.returns ∧ ∀ l, ¬ G.result l a

theorem ReachesBare.head (hpath : Relation.ReflTransGen G.Step s t) (h : G.ReachesBare t) :
    G.ReachesBare s := by
  obtain ⟨a, hreaches, ha⟩ := h
  exact ⟨a, hpath.trans hreaches, ha⟩

theorem Laid.reachesBare (control : Control) : ∀ {loop : Option (α × α)} {s t : α},
    G.Laid loop control s t → control.returnsBare → G.ReachesBare s := by
  induction control with
  | done => exact fun _ h => nomatch h
  | plain rest ih =>
      rintro loop s t ⟨l, a, hseg, hrest⟩ hbare
      exact .head hseg.reaches (ih hrest hbare)
  | ifThen body rest ihbody ihrest =>
      rintro loop s t ⟨l, a, b, m, hseg, hbranch, hbody, hrest⟩ hbare
      simp only [Control.returnsBare, Bool.or_eq_true] at hbare
      apply ReachesBare.head hseg.reaches
      rcases hbare with h | h
      · exact .head hbranch.reaches_left (ihbody hbody h)
      · exact .head hbranch.reaches_right (ihrest hrest h)
  | ifElse body other rest ihbody ihother ihrest =>
      rintro loop s t ⟨l, a, b, o, e, m, hseg, hbranch, hbody, hjump, hother, hrest⟩ hbare
      simp only [Control.returnsBare, Bool.and_eq_true, Bool.or_eq_true] at hbare
      apply ReachesBare.head hseg.reaches
      rcases hbare with (h | h) | ⟨h | h, hbare⟩
      · exact .head hbranch.reaches_left (ihbody hbody h)
      · exact .head hbranch.reaches_right (ihother hother h)
      · refine .head (hbranch.reaches_left.trans ?_) (ihrest hrest hbare)
        exact (hbody.reaches body h).trans hjump.reaches
      · refine .head (hbranch.reaches_right.trans ?_) (ihrest hrest hbare)
        exact hother.reaches other h
  | loop body rest ihbody ihrest =>
      rintro loop s t ⟨l, a, b, e, m, hseg, hbranch, hbody, -, hrest⟩ hbare
      simp only [Control.returnsBare, Bool.or_eq_true] at hbare
      apply ReachesBare.head hseg.reaches
      rcases hbare with h | h
      · exact .head hbranch.reaches_left (ihbody hbody h)
      · exact .head hbranch.reaches_right (ihrest hrest h)
  | breaks => exact fun _ h => nomatch h
  | continues => exact fun _ h => nomatch h
  | returns value =>
      rintro loop s t ⟨l, m, l', a, hseg, hseg', -, hreturns, -, hvalue⟩ hbare
      obtain rfl : value = false := by simpa [Control.returnsBare] using hbare
      exact ⟨a, hseg.reaches.trans hseg'.reaches, hreturns, hvalue⟩

/-! ## Paths -/

variable (G) in
/-- A path from `s`, by the positions that were visited and the current one. -/
inductive Path (s : α) : Set α → α → Prop where
  | start : Path s ∅ s
  | step {visited : Set α} {i j : α} : Path s visited i → G.Step i j →
      Path s (insert i visited) j

theorem exists_path (h : Relation.ReflTransGen G.Step s t) : ∃ visited, G.Path s visited t := by
  induction h with
  | refl => exact ⟨∅, .start⟩
  | tail _ hstep ih =>
      obtain ⟨visited, hpath⟩ := ih
      exact ⟨_, hpath.step hstep⟩

/-- A code without exits is never left. -/
theorem Path.inside {visited : Set α} {i : α} (h : G.Path s visited i)
    (hs : G.Holds bare (fun _ => False) s) : G.Inside bare (fun _ => False) visited i := by
  induction h with
  | start => exact hs ∅
  | step _ hstep ih => exact ((confined_inside _ _ ih).2.2 _ hstep.2).resolve_left id

/-- A path ends in the code or at an exit. -/
theorem Meets.of_reaches (h : G.Meets bare exit s) (hexit : ∀ j, exit j → j ∉ G.code)
    (hreaches : Relation.ReflTransGen G.Step s t) : t ∈ G.code ∨ exit t := by
  have hinside : exit t ∨ ∃ visited, G.Inside bare exit visited t := by
    induction hreaches with
    | refl => exact h.imp_right fun hs => ⟨∅, hs ∅⟩
    | tail _ hstep ih =>
        rcases ih with hout | ⟨visited, hin⟩
        · exact absurd hstep.1 (hexit _ hout)
        · exact ((confined_inside _ _ hin).2.2 _ hstep.2).imp_right fun h => ⟨_, h⟩
  rcases hinside with hout | ⟨visited, hin⟩
  · exact .inr hout
  · exact .inl (confined_inside _ _ hin).1

end FlowGraph
