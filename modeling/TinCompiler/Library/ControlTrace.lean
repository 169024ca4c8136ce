import Mathlib.Data.List.Basic

/-!
# Structured programs and the paths through their code

A structured program has labels for its statements and conditions.  It is run by a machine with
a stack of the blocks it is in (`Structured.State.next`), which shows the labels that are
executed and the answers of the conditions.  The code of such a program is a graph
(`CodeGraph`): the positions of the code of labels are visible, and the jumps and adjustments
between them are not.  `CodeGraph.Lies` says that the code of a program lies between two
positions.

* `CodeGraph.Stands.step`: where the code of the state stands, the code of its next step
  follows.
* `CodeGraph.Stands.run`: the code follows every run.
* `CodeGraph.Stands.exists_run`: what is visible of a path through the code is the code of a
  run with the same answers, as far as the path goes.
-/

universe u v w

/-- A structured program; what is behind a statement that leaves its block is not part of it. -/
inductive Structured (σ : Type u) where
  | done
  | plain (label : σ) (rest : Structured σ)
  | ifThen (label : σ) (body rest : Structured σ)
  | ifElse (label : σ) (body other rest : Structured σ)
  | loop (label : σ) (body rest : Structured σ)
  | breaks
  | continues
  | returns (value : Option σ)

namespace Structured

variable {σ : Type u} {τ : Type v}

def map (f : σ → τ) : Structured σ → Structured τ
  | done => done
  | plain label rest => plain (f label) (rest.map f)
  | ifThen label body rest => ifThen (f label) (body.map f) (rest.map f)
  | ifElse label body other rest => ifElse (f label) (body.map f) (other.map f) (rest.map f)
  | loop label body rest => loop (f label) (body.map f) (rest.map f)
  | breaks => breaks
  | continues => continues
  | returns value => returns (value.map f)

/-- The number of statements. -/
def size : Structured σ → ℕ
  | plain _ rest => rest.size + 1
  | ifThen _ body rest => body.size + rest.size + 1
  | ifElse _ body other rest => body.size + other.size + rest.size + 1
  | loop _ body rest => body.size + rest.size + 1
  | returns (some _) => 1
  | done | breaks | continues | returns none => 0

/-- What can be seen of a step. -/
inductive Event (σ : Type u) where
  | did (label : σ)
  | asked (label : σ) (answer : Bool)

namespace Event

def label : Event σ → σ
  | did label => label
  | asked label _ => label

def answer : Event σ → Option Bool
  | did _ => none
  | asked _ answer => some answer

def map (f : σ → τ) : Event σ → Event τ
  | did label => did (f label)
  | asked label answer => asked (f label) answer

@[simp] theorem answer_map (f : σ → τ) (event : Event σ) :
    (event.map f).answer = event.answer := by
  cases event <;> rfl

end Event

/-- The answers of the conditions, in order. -/
def answers (tr : List (Event σ)) : List Bool := tr.filterMap Event.answer

@[simp] theorem answers_append (tr tr' : List (Event σ)) :
    answers (tr ++ tr') = answers tr ++ answers tr' := List.filterMap_append

/-- What waits behind the current block. -/
inductive Frame (σ : Type u) where
  | seq (rest : Structured σ)
  /-- the body of a loop is run -/
  | loop (label : σ) (body rest : Structured σ)

def Frame.map (f : σ → τ) : Frame σ → Frame τ
  | seq rest => seq (rest.map f)
  | loop label body rest => loop (f label) (body.map f) (rest.map f)

def Frame.size : Frame σ → ℕ
  | seq rest => rest.size + 1
  | loop _ body rest => body.size + rest.size + 1

def stackSize : List (Frame σ) → ℕ
  | [] => 0
  | frame :: stack => frame.size + stackSize stack

/-- The rest of the current block, and what is behind it, the innermost first. -/
structure State (σ : Type u) where
  program : Structured σ
  stack : List (Frame σ) := []

namespace State

def map (f : σ → τ) (s : State σ) : State τ := ⟨s.program.map f, s.stack.map (Frame.map f)⟩

def size (s : State σ) : ℕ := s.program.size + stackSize s.stack

theorem size_seq (program rest : Structured σ) (stack : List (Frame σ)) :
    (State.mk rest stack).size < (State.mk program (.seq rest :: stack)).size := by
  simp only [State.size, stackSize, Frame.size]
  omega

theorem size_pop (program rest : Structured σ) (stack : List (Frame σ)) :
    (State.mk program stack).size < (State.mk program (.seq rest :: stack)).size := by
  simp only [State.size, stackSize, Frame.size]
  omega

theorem size_plain (label : σ) (rest : Structured σ) (stack : List (Frame σ)) :
    (State.mk rest stack).size < (State.mk (plain label rest) stack).size := by
  simp only [State.size, Structured.size]
  omega

theorem size_returns (label : σ) (stack : List (Frame σ)) :
    (State.mk (returns none) stack).size < (State.mk (returns (some label)) stack).size := by
  simp only [State.size, Structured.size]
  omega

/-- One step; the condition it evaluates, if any, has the given answer. -/
def next (answer : Bool) : State σ → Option (Option (Event σ) × State σ)
  | ⟨done, []⟩ => none
  | ⟨done, .seq rest :: stack⟩ => some (none, ⟨rest, stack⟩)
  | ⟨done, .loop label body rest :: stack⟩ => some (none, ⟨.loop label body rest, stack⟩)
  | ⟨plain label rest, stack⟩ => some (some (.did label), ⟨rest, stack⟩)
  | ⟨ifThen label body rest, stack⟩ => some (some (.asked label answer),
      if answer then ⟨body, .seq rest :: stack⟩ else ⟨rest, stack⟩)
  | ⟨ifElse label body other rest, stack⟩ => some (some (.asked label answer),
      if answer then ⟨body, .seq rest :: stack⟩ else ⟨other, .seq rest :: stack⟩)
  | ⟨.loop label body rest, stack⟩ => some (some (.asked label answer),
      if answer then ⟨body, .loop label body rest :: stack⟩ else ⟨rest, stack⟩)
  | ⟨breaks, []⟩ => none
  | ⟨breaks, .seq _ :: stack⟩ => some (none, ⟨breaks, stack⟩)
  | ⟨breaks, .loop _ _ rest :: stack⟩ => some (none, ⟨rest, stack⟩)
  | ⟨continues, []⟩ => none
  | ⟨continues, .seq _ :: stack⟩ => some (none, ⟨continues, stack⟩)
  | ⟨continues, .loop label body rest :: stack⟩ => some (none, ⟨.loop label body rest, stack⟩)
  | ⟨returns none, _⟩ => none
  | ⟨returns (some label), stack⟩ => some (some (.did label), ⟨returns none, stack⟩)

/-- The program is run to its end. -/
def Ended (s : State σ) : Prop := s.program = done ∧ s.stack = []

/-- The program has returned. -/
def Returned (s : State σ) : Prop := s.program = returns none

def Finished (s : State σ) : Prop := s.Ended ∨ s.Returned

theorem next_map (f : σ → τ) (answer : Bool) (s : State σ) : (s.map f).next answer =
    (s.next answer).map fun step => (step.1.map (Event.map f), step.2.map f) := by
  obtain ⟨program, stack⟩ := s
  cases program with
  | done => rcases stack with _ | ⟨⟨_⟩ | ⟨_⟩, _⟩ <;> rfl
  | plain label rest => rfl
  | ifThen label body rest => cases answer <;> rfl
  | ifElse label body other rest => cases answer <;> rfl
  | loop label body rest => cases answer <;> rfl
  | breaks => rcases stack with _ | ⟨⟨_⟩ | ⟨_⟩, _⟩ <;> rfl
  | continues => rcases stack with _ | ⟨⟨_⟩ | ⟨_⟩, _⟩ <;> rfl
  | returns value => cases value <;> rfl

theorem Returned.of_map {f : σ → τ} {s : State σ} (h : (s.map f).Returned) : s.Returned := by
  obtain ⟨program, stack⟩ := s
  cases program with
  | returns value =>
      cases value with
      | none => rfl
      | some label => cases h
  | _ => cases h

theorem Ended.of_map {f : σ → τ} {s : State σ} (h : (s.map f).Ended) : s.Ended := by
  obtain ⟨program, stack⟩ := s
  obtain ⟨hprogram, hstack⟩ := h
  refine ⟨?_, List.map_eq_nil_iff.mp hstack⟩
  cases program with
  | done => rfl
  | _ => cases hprogram

theorem Ended.map (f : σ → τ) {s : State σ} (h : s.Ended) : (s.map f).Ended := by
  obtain ⟨program, stack⟩ := s
  obtain ⟨rfl, rfl⟩ : program = done ∧ stack = [] := h
  exact ⟨rfl, rfl⟩

theorem Returned.map (f : σ → τ) {s : State σ} (h : s.Returned) : (s.map f).Returned := by
  obtain ⟨program, stack⟩ := s
  obtain rfl : program = returns none := h
  rfl

theorem Finished.map (f : σ → τ) {s : State σ} (h : s.Finished) : (s.map f).Finished :=
  h.imp (Ended.map f) (Returned.map f)

/-- A step evaluates at most one condition. -/
theorem answers_of_next {s s' : State σ} {answer : Bool} {event : Option (Event σ)}
    (h : s.next answer = some (event, s')) :
    answers event.toList = [] ∨ answers event.toList = [answer] := by
  obtain ⟨program, stack⟩ := s
  cases program with
  | done =>
      rcases stack with _ | ⟨⟨_⟩ | ⟨_⟩, _⟩ <;> cases h <;> exact .inl rfl
  | plain label rest => cases h; exact .inl rfl
  | ifThen label body rest => cases h; exact .inr rfl
  | ifElse label body other rest => cases h; exact .inr rfl
  | loop label body rest => cases h; exact .inr rfl
  | breaks => rcases stack with _ | ⟨⟨_⟩ | ⟨_⟩, _⟩ <;> cases h <;> exact .inl rfl
  | continues => rcases stack with _ | ⟨⟨_⟩ | ⟨_⟩, _⟩ <;> cases h <;> exact .inl rfl
  | returns value =>
      cases value <;> cases h
      exact .inl rfl

/-- A run shows the events one after the other, with any answers. -/
inductive Run : State σ → List (Event σ) → State σ → Prop where
  | refl (s : State σ) : Run s [] s
  | step {s s' t : State σ} {answer : Bool} {event : Option (Event σ)} {tr : List (Event σ)} :
      s.next answer = some (event, s') → Run s' tr t → Run s (event.toList ++ tr) t

theorem Run.map (f : σ → τ) {s t : State σ} {tr : List (Event σ)} (h : Run s tr t) :
    Run (s.map f) (tr.map (Event.map f)) (t.map f) := by
  induction h with
  | refl s => exact .refl _
  | @step s s' t answer event tr hnext _ ih =>
      have hnext' : (s.map f).next answer = some (event.map (Event.map f), s'.map f) := by
        rw [next_map, hnext]
        rfl
      rw [List.map_append]
      have heq : event.toList.map (Event.map f) = (event.map (Event.map f)).toList := by
        cases event <;> rfl
      rw [heq]
      exact .step hnext' ih

/-- A run with other labels comes from a run. -/
theorem Run.of_map (f : σ → τ) {s' t' : State τ} {tr' : List (Event τ)} (h : Run s' tr' t') :
    ∀ {s : State σ}, s.map f = s' →
      ∃ tr t, tr.map (Event.map f) = tr' ∧ t.map f = t' ∧ Run s tr t := by
  induction h with
  | refl s' => exact fun {s} hs => ⟨[], s, rfl, hs, .refl s⟩
  | @step s' s'' t' answer event' tr' hnext _ ih =>
      rintro s rfl
      rw [next_map] at hnext
      obtain ⟨⟨event, s₁⟩, hstep, heq⟩ := Option.map_eq_some_iff.mp hnext
      obtain ⟨rfl, rfl⟩ := Prod.mk.inj heq
      obtain ⟨tr, t, rfl, rfl, hrun⟩ := ih rfl
      refine ⟨event.toList ++ tr, t, ?_, rfl, .step hstep hrun⟩
      rw [List.map_append]
      cases event <;> rfl

end State

end Structured

/-! ## Code -/

/-- Where control goes from a position. -/
inductive Transfer (α : Type w) where
  | go (target : α)
  | branch (yes no : α)
  | leave
  | stuck

def Transfer.targets {α : Type w} : Transfer α → List α
  | .go target => [target]
  | .branch yes no => [yes, no]
  | .leave | .stuck => []

/-- The code of labels, in a graph of positions. -/
structure CodeGraph (α : Type w) (σ : Type u) where
  flow : α → Transfer α
  code : σ → List α
  visible : α → Bool
  visible_of_code : ∀ label, ∀ x ∈ code label, visible x = true

namespace CodeGraph

open Structured (Event Frame State answers answers_append)

variable {α : Type w} {σ : Type u} (G : CodeGraph α σ)

/-- A path through the code: the positions and the answers of the branches on the way. -/
inductive Walk : α → List α → List Bool → α → Prop where
  | nil (s : α) : Walk s [] [] s
  | go {s s' t : α} {ps : List α} {bs : List Bool} : G.flow s = .go s' → Walk s' ps bs t →
      Walk s (s :: ps) bs t
  | branch {s yes no t : α} {b : Bool} {ps : List α} {bs : List Bool} :
      G.flow s = .branch yes no → Walk (if b then yes else no) ps bs t → Walk s (s :: ps) (b :: bs) t

/-- What is visible of a path. -/
def seen (ps : List α) : List α := ps.filter G.visible

/-- The code of what a run shows. -/
def codeOf (tr : List (Event σ)) : List α := tr.flatMap fun event => G.code event.label

/-- A path without branches. -/
def Straight (s : α) (ps : List α) (t : α) : Prop := G.Walk s ps [] t

/-- A path without branches of which nothing is visible. -/
def Glue (s t : α) : Prop := ∃ ps, G.Straight s ps t ∧ G.seen ps = []

/-- From here control leaves or gets stuck, without anything to be seen. -/
def Quits (s : α) : Prop := ∃ t, G.Glue s t ∧ (G.flow t = .leave ∨ G.flow t = .stuck)

/-- An invisible jump. -/
def Jump (s t : α) : Prop := G.flow s = .go t ∧ G.visible s = false

def Branch (s yes no : α) : Prop := G.flow s = .branch yes no ∧ G.visible s = false

def Leaves (s : α) : Prop := ∃ t, G.Glue s t ∧ G.flow t = .leave

/-- The code of the program lies between the two positions; `loop` has the places where
`continues` and `breaks` go. -/
def Lies : Option (α × α) → Structured σ → α → α → Prop
  | _, .done, s, t => G.Glue s t
  | loop, .plain label rest, s, t => ∃ a, G.Straight s (G.code label) a ∧ Lies loop rest a t
  | loop, .ifThen label body rest, s, t => ∃ a b m, G.Straight s (G.code label) a ∧
      G.Branch a b m ∧ Lies loop body b m ∧ Lies loop rest m t
  | loop, .ifElse label body other rest, s, t => ∃ a b o x m, G.Straight s (G.code label) a ∧
      G.Branch a b o ∧ Lies loop body b x ∧ G.Jump x m ∧ Lies loop other o m ∧ Lies loop rest m t
  | loop, .loop label body rest, s, t => ∃ a b x m, G.Straight s (G.code label) a ∧
      G.Branch a b m ∧ Lies (some (s, m)) body b x ∧ G.Jump x s ∧ Lies loop rest m t
  | loop, .breaks, s, _ => ∃ a c k, loop = some (c, k) ∧ G.Glue s a ∧ G.Jump a k
  | loop, .continues, s, _ => ∃ a c k, loop = some (c, k) ∧ G.Glue s a ∧ G.Jump a c
  | _, .returns none, s, _ => G.Leaves s
  | _, .returns (some label), s, _ => ∃ m, G.Straight s (G.code label) m ∧ G.Leaves m

variable {G} {s t a : α} {ps ps' : List α} {bs bs' : List Bool}

@[simp] theorem seen_append (ps ps' : List α) : G.seen (ps ++ ps') = G.seen ps ++ G.seen ps' :=
  List.filter_append ..

theorem seen_code (label : σ) : G.seen (G.code label) = G.code label :=
  List.filter_eq_self.mpr (G.visible_of_code label)

theorem seen_hidden (h : G.visible s = false) : G.seen [s] = [] := by
  simp [seen, h]

@[simp] theorem codeOf_append (tr tr' : List (Event σ)) :
    G.codeOf (tr ++ tr') = G.codeOf tr ++ G.codeOf tr' := List.flatMap_append

theorem Walk.append (h : G.Walk s ps bs t) (h' : G.Walk t ps' bs' a) :
    G.Walk s (ps ++ ps') (bs ++ bs') a := by
  induction h with
  | nil s => exact h'
  | go hflow _ ih => exact .go hflow (ih h')
  | branch hflow _ ih => exact .branch hflow (ih h')

theorem Glue.trans (h : G.Glue s t) (h' : G.Glue t a) : G.Glue s a := by
  obtain ⟨ps, hps, hseen⟩ := h
  obtain ⟨ps', hps', hseen'⟩ := h'
  exact ⟨ps ++ ps', hps.append hps', by rw [seen_append, hseen, hseen', List.append_nil]⟩

theorem Glue.refl (s : α) : G.Glue s s := ⟨[], .nil s, rfl⟩

theorem Jump.glue (h : G.Jump s t) : G.Glue s t := ⟨[s], .go h.1 (.nil t), seen_hidden h.2⟩

/-- Glue behind a program belongs to its end. -/
theorem Lies.extend (program : Structured σ) : ∀ {loop : Option (α × α)} {s t t' : α},
    G.Lies loop program s t → G.Glue t t' → G.Lies loop program s t' := by
  induction program with
  | done => exact fun h hglue => h.trans hglue
  | plain label rest ih =>
      rintro loop s t t' ⟨a, hcode, hrest⟩ hglue
      exact ⟨a, hcode, ih hrest hglue⟩
  | ifThen label body rest _ ih =>
      rintro loop s t t' ⟨a, b, m, hcode, hbranch, hbody, hrest⟩ hglue
      exact ⟨a, b, m, hcode, hbranch, hbody, ih hrest hglue⟩
  | ifElse label body other rest _ _ ih =>
      rintro loop s t t' ⟨a, b, o, x, m, hcode, hbranch, hbody, hjump, hother, hrest⟩ hglue
      exact ⟨a, b, o, x, m, hcode, hbranch, hbody, hjump, hother, ih hrest hglue⟩
  | loop label body rest _ ih =>
      rintro loop s t t' ⟨a, b, x, m, hcode, hbranch, hbody, hjump, hrest⟩ hglue
      exact ⟨a, b, x, m, hcode, hbranch, hbody, hjump, ih hrest hglue⟩
  | breaks => exact fun h _ => h
  | continues => exact fun h _ => h
  | returns value => cases value <;> exact fun h _ => h

/-! ## The code follows the runs -/

variable (G) in
/-- What waits in the frames lies behind `t`. -/
inductive Behind : Option (α × α) → List (Frame σ) → α → Prop where
  | nil {t : α} : G.Quits t → Behind none [] t
  | seq {loop : Option (α × α)} {rest : Structured σ} {stack : List (Frame σ)} {t t' : α} :
      G.Lies loop rest t t' → Behind loop stack t' → Behind loop (.seq rest :: stack) t
  | loop {outer : Option (α × α)} {label : σ} {body rest : Structured σ} {stack : List (Frame σ)}
      {t t' c k : α} : G.Jump t c → G.Lies outer (.loop label body rest) c t' →
      G.Lies outer rest k t' → Behind outer stack t' →
      Behind (some (c, k)) (.loop label body rest :: stack) t

variable (G) in
/-- The code of the state begins at `s`. -/
def Stands (state : State σ) (s : α) : Prop :=
  ∃ loop t, G.Lies loop state.program s t ∧ G.Behind loop state.stack t

variable (G) in
/-- From `s` to a place where the state stands, the code of the event is executed; some code is,
or the state gets smaller than `n`. -/
structure Follows (s : α) (event : Option (Event σ)) (state : State σ) (n : ℕ) (ps : List α)
    (s' : α) : Prop where
  walk : G.Walk s ps (answers event.toList) s'
  seen : G.seen ps = G.codeOf event.toList
  stands : G.Stands state s'
  progress : ps ≠ [] ∨ state.size < n

/-- What is left of a path is shorter, or the state is smaller. -/
theorem Follows.less {event : Option (Event σ)} {state : State σ} {n : ℕ} {qs : List α} {s' : α}
    (h : G.Follows s event state n qs s') (hps : ps = qs ++ ps') :
    Prod.Lex (· < ·) (· < ·) (ps'.length, state.size) (ps.length, n) := by
  rw [hps, List.length_append]
  cases qs with
  | nil =>
      rw [List.length_nil, Nat.zero_add]
      exact .right _ (h.progress.resolve_left fun h => h rfl)
  | cons q qs => exact .left _ _ (by rw [List.length_cons]; omega)

theorem Follows.silent {state : State σ} {n : ℕ} {s' : α} (h : G.Glue s s')
    (hstands : G.Stands state s') (hsize : state.size < n) :
    ∃ ps s', G.Follows s none state n ps s' := by
  obtain ⟨ps, hps, hseen⟩ := h
  exact ⟨ps, s', hps, hseen, hstands, .inr hsize⟩

theorem Follows.jump {state : State σ} {n : ℕ} {m s' : α} (h : G.Glue s m) (hjump : G.Jump m s')
    (hstands : G.Stands state s') : ∃ ps s', G.Follows s none state n ps s' := by
  obtain ⟨ps, hps, hseen⟩ := h
  refine ⟨ps ++ [m], s', hps.append (.go hjump.1 (.nil s')), ?_, hstands, .inl (by simp)⟩
  rw [seen_append, hseen, seen_hidden hjump.2]
  rfl

theorem Follows.did {state : State σ} {n : ℕ} {label : σ} {s' : α}
    (h : G.Straight s (G.code label) s') (hstands : G.Stands state s') (hsize : state.size < n) :
    ∃ ps s', G.Follows s (some (.did label)) state n ps s' := by
  refine ⟨_, s', h, ?_, hstands, .inr hsize⟩
  rw [seen_code]
  exact (List.append_nil _).symm

theorem Follows.asked {state : State σ} {n : ℕ} {label : σ} {a yes no : α} {answer : Bool}
    (h : G.Straight s (G.code label) a) (hbranch : G.Branch a yes no)
    (hstands : G.Stands state (if answer then yes else no)) :
    ∃ ps s', G.Follows s (some (.asked label answer)) state n ps s' := by
  refine ⟨G.code label ++ [a], _, h.append (.branch hbranch.1 (.nil _)), ?_, hstands,
    .inl (by simp)⟩
  rw [seen_append, seen_code, seen_hidden hbranch.2]
  rfl

/-- Where the code of the state stands, the code of its next step follows. -/
theorem Stands.step {state state' : State σ} {answer : Bool} {event : Option (Event σ)}
    (h : G.Stands state s) (hnext : state.next answer = some (event, state')) :
    ∃ ps s', G.Follows s event state' state.size ps s' := by
  obtain ⟨program, stack⟩ := state
  obtain ⟨loop, t, hlies, hbehind⟩ := h
  cases program with
  | done =>
      cases hbehind with
      | nil hquits => cases hnext
      | seq hrest hbehind =>
          obtain ⟨rfl, rfl⟩ := Prod.mk.inj (Option.some.inj hnext)
          exact Follows.silent hlies ⟨_, _, hrest, hbehind⟩ (State.size_seq _ _ _)
      | loop hjump hloop hrest hbehind =>
          obtain ⟨rfl, rfl⟩ := Prod.mk.inj (Option.some.inj hnext)
          exact Follows.jump hlies hjump ⟨_, _, hloop, hbehind⟩
  | plain label rest =>
      obtain ⟨rfl, rfl⟩ := Prod.mk.inj (Option.some.inj hnext)
      obtain ⟨a, hcode, hrest⟩ := hlies
      exact Follows.did hcode ⟨_, _, hrest, hbehind⟩ (State.size_plain _ _ _)
  | ifThen label body rest =>
      obtain ⟨rfl, rfl⟩ := Prod.mk.inj (Option.some.inj hnext)
      obtain ⟨a, b, m, hcode, hbranch, hbody, hrest⟩ := hlies
      refine Follows.asked hcode hbranch ?_
      cases answer with
      | true => exact ⟨_, _, hbody, .seq hrest hbehind⟩
      | false => exact ⟨_, _, hrest, hbehind⟩
  | ifElse label body other rest =>
      obtain ⟨rfl, rfl⟩ := Prod.mk.inj (Option.some.inj hnext)
      obtain ⟨a, b, o, x, m, hcode, hbranch, hbody, hjump, hother, hrest⟩ := hlies
      refine Follows.asked hcode hbranch ?_
      cases answer with
      | true => exact ⟨_, _, hbody.extend body hjump.glue, .seq hrest hbehind⟩
      | false => exact ⟨_, _, hother, .seq hrest hbehind⟩
  | loop label body rest =>
      obtain ⟨rfl, rfl⟩ := Prod.mk.inj (Option.some.inj hnext)
      have hloop := hlies
      obtain ⟨a, b, x, m, hcode, hbranch, hbody, hjump, hrest⟩ := hlies
      refine Follows.asked hcode hbranch ?_
      cases answer with
      | true => exact ⟨_, _, hbody, .loop hjump hloop hrest hbehind⟩
      | false => exact ⟨_, _, hrest, hbehind⟩
  | breaks =>
      cases hbehind with
      | nil hquits => cases hnext
      | @seq _ _ _ _ t' hrest hbehind =>
          obtain ⟨rfl, rfl⟩ := Prod.mk.inj (Option.some.inj hnext)
          exact Follows.silent (.refl s) ⟨loop, t', hlies, hbehind⟩ (State.size_pop _ _ _)
      | loop hback hloop hrest hbehind =>
          obtain ⟨rfl, rfl⟩ := Prod.mk.inj (Option.some.inj hnext)
          obtain ⟨a, c, k, heq, hglue, hjump⟩ := hlies
          obtain ⟨rfl, rfl⟩ := Prod.mk.inj (Option.some.inj heq)
          exact Follows.jump hglue hjump ⟨_, _, hrest, hbehind⟩
  | continues =>
      cases hbehind with
      | nil hquits => cases hnext
      | @seq _ _ _ _ t' hrest hbehind =>
          obtain ⟨rfl, rfl⟩ := Prod.mk.inj (Option.some.inj hnext)
          exact Follows.silent (.refl s) ⟨loop, t', hlies, hbehind⟩ (State.size_pop _ _ _)
      | loop hback hloop hrest hbehind =>
          obtain ⟨rfl, rfl⟩ := Prod.mk.inj (Option.some.inj hnext)
          obtain ⟨a, c, k, heq, hglue, hjump⟩ := hlies
          obtain ⟨rfl, rfl⟩ := Prod.mk.inj (Option.some.inj heq)
          exact Follows.jump hglue hjump ⟨_, _, hloop, hbehind⟩
  | returns value =>
      cases value with
      | none => cases hnext
      | some label =>
          obtain ⟨rfl, rfl⟩ := Prod.mk.inj (Option.some.inj hnext)
          obtain ⟨m, hcode, hleaves⟩ := hlies
          exact Follows.did hcode ⟨loop, t, hleaves, hbehind⟩ (State.size_returns _ _)

/-- The code follows every run. -/
theorem Stands.run {state state' : State σ} {tr : List (Event σ)} (hrun : state.Run tr state') :
    ∀ {s : α}, G.Stands state s →
      ∃ ps s', G.Walk s ps (answers tr) s' ∧ G.seen ps = G.codeOf tr ∧ G.Stands state' s' := by
  induction hrun with
  | refl state => exact fun {s} h => ⟨[], s, .nil s, rfl, h⟩
  | step hnext _ ih =>
      intro s h
      obtain ⟨ps, s', hfollows⟩ := h.step hnext
      obtain ⟨ps', s'', hwalk, hseen, hstands⟩ := ih hfollows.stands
      refine ⟨ps ++ ps', s'', ?_, ?_, hstands⟩
      · rw [answers_append]
        exact hfollows.walk.append hwalk
      · rw [seen_append, codeOf_append, hfollows.seen, hseen]

/-- A program that has returned leaves the code. -/
theorem Stands.leaves {state : State σ} (h : G.Stands state s) (hreturned : state.Returned) :
    G.Leaves s := by
  obtain ⟨loop, t, hlies, -⟩ := h
  rw [hreturned] at hlies
  exact hlies

theorem Stands.quits_of_ended {state : State σ} (h : G.Stands state s) (hended : state.Ended) :
    G.Quits s := by
  obtain ⟨loop, t, hlies, hbehind⟩ := h
  rw [hended.1] at hlies
  rw [hended.2] at hbehind
  cases hbehind with
  | nil hquits =>
      obtain ⟨t', hglue, hflow⟩ := hquits
      exact ⟨t', Glue.trans hlies hglue, hflow⟩

/-- A state without a next step is at its end or has returned. -/
theorem Stands.finished {state : State σ} {answer : Bool} (h : G.Stands state s)
    (hnext : state.next answer = none) : state.Finished := by
  obtain ⟨program, stack⟩ := state
  obtain ⟨loop, t, hlies, hbehind⟩ := h
  have hstop : ∀ {c k : α}, stack = [] → loop ≠ some (c, k) := by
    rintro c k rfl rfl
    cases hbehind
  cases program with
  | done =>
      cases hbehind with
      | nil hquits => exact .inl ⟨rfl, rfl⟩
      | seq hrest hbehind => cases hnext
      | loop hjump hloop hrest hbehind => cases hnext
  | breaks =>
      obtain ⟨a, c, k, heq, -⟩ := hlies
      rcases stack with _ | ⟨⟨_⟩ | ⟨_⟩, _⟩
      · exact absurd heq (hstop rfl)
      · cases hnext
      · cases hnext
  | continues =>
      obtain ⟨a, c, k, heq, -⟩ := hlies
      rcases stack with _ | ⟨⟨_⟩ | ⟨_⟩, _⟩
      · exact absurd heq (hstop rfl)
      · cases hnext
      · cases hnext
  | returns value =>
      cases value with
      | none => exact .inr rfl
      | some label => cases hnext
  | plain label rest => cases hnext
  | ifThen label body rest => cases hnext
  | ifElse label body other rest => cases hnext
  | loop label body rest => cases hnext

theorem Stands.quits {state : State σ} {answer : Bool} (h : G.Stands state s)
    (hnext : state.next answer = none) : G.Quits s := by
  rcases h.finished hnext with hended | hreturned
  · exact h.quits_of_ended hended
  · obtain ⟨t, hglue, hflow⟩ := h.leaves hreturned
    exact ⟨t, hglue, .inl hflow⟩

/-! ## The runs follow the code -/

/-- Two paths from one position whose answers agree: one goes on where the other stops. -/
theorem Walk.split {p : α} {qs : List α} {as : List Bool} (h : G.Walk s qs as p) :
    ∀ {ps : List α} {bs : List Bool}, G.Walk s ps bs t → as <+: bs ∨ bs <+: as →
      (ps <+: qs ∧ bs <+: as) ∨
        ∃ ps' bs', ps = qs ++ ps' ∧ bs = as ++ bs' ∧ G.Walk p ps' bs' t := by
  induction h with
  | nil s => exact fun {ps bs} hwalk _ => .inr ⟨ps, bs, rfl, rfl, hwalk⟩
  | @go s s' p qs as hflow _ ih =>
      intro ps bs hwalk hagree
      cases hwalk with
      | nil _ => exact .inl ⟨List.nil_prefix, List.nil_prefix⟩
      | go hflow' hwalk =>
          obtain rfl := Transfer.go.inj (hflow.symm.trans hflow')
          rcases ih hwalk hagree with ⟨hps, hbs⟩ | ⟨ps', bs', rfl, rfl, hrest⟩
          · exact .inl ⟨List.cons_prefix_cons.mpr ⟨rfl, hps⟩, hbs⟩
          · exact .inr ⟨ps', bs', rfl, rfl, hrest⟩
      | branch hflow' _ => cases hflow.symm.trans hflow'
  | @branch s yes no p b qs as hflow _ ih =>
      intro ps bs hwalk hagree
      cases hwalk with
      | nil _ => exact .inl ⟨List.nil_prefix, List.nil_prefix⟩
      | go hflow' _ => cases hflow.symm.trans hflow'
      | @branch _ _ _ _ b' ps bs hflow' hwalk =>
          obtain ⟨rfl, rfl⟩ := Transfer.branch.inj (hflow.symm.trans hflow')
          simp only [List.cons_prefix_cons] at hagree
          obtain rfl : b = b' := hagree.elim (fun h => h.1) fun h => h.1.symm
          rcases ih hwalk (hagree.imp And.right And.right) with
            ⟨hps, hbs⟩ | ⟨ps', bs', rfl, rfl, hrest⟩
          · exact .inl ⟨List.cons_prefix_cons.mpr ⟨rfl, hps⟩, List.cons_prefix_cons.mpr ⟨rfl, hbs⟩⟩
          · exact .inr ⟨ps', bs', rfl, rfl, hrest⟩

theorem seen_prefix (h : ps <+: ps') : G.seen ps <+: G.seen ps' := h.filter _

/-- Where control quits, a path shows nothing more. -/
theorem Quits.walk (h : G.Quits s) (hwalk : G.Walk s ps bs t) : G.seen ps = [] ∧ bs = [] := by
  obtain ⟨p, ⟨qs, hqs, hseen⟩, hflow⟩ := h
  rcases Walk.split hqs hwalk (.inl List.nil_prefix) with ⟨hps, hbs⟩ | ⟨ps', bs', rfl, rfl, hrest⟩
  · exact ⟨List.prefix_nil.mp (hseen ▸ seen_prefix hps), List.prefix_nil.mp hbs⟩
  · cases hrest with
    | nil _ => exact ⟨by rw [List.append_nil, hseen], rfl⟩
    | go hflow' _ => rcases hflow with h | h <;> cases h.symm.trans hflow'
    | branch hflow' _ => rcases hflow with h | h <;> cases h.symm.trans hflow'

theorem answers_agree {state state' : State σ} {event : Option (Event σ)} (bs : List Bool)
    (hnext : state.next (bs.headD true) = some (event, state')) :
    answers event.toList <+: bs ∨ bs <+: answers event.toList := by
  rcases State.answers_of_next hnext with h | h
  · rw [h]
    exact .inl List.nil_prefix
  · rw [h]
    cases bs with
    | nil => exact .inr List.nil_prefix
    | cons b bs => exact .inl ⟨bs, rfl⟩

/-- What is visible of a path is the code of a run with the same answers, as far as the path
goes. -/
theorem Stands.exists_run : ∀ (ps : List α) (state : State σ) {s t : α} {bs : List Bool},
    G.Stands state s → G.Walk s ps bs t →
      ∃ tr state', state.Run tr state' ∧ G.seen ps <+: G.codeOf tr ∧ bs <+: answers tr := by
  intro ps state s t bs h hwalk
  cases hnext : state.next (bs.headD true) with
  | none =>
      obtain ⟨hseen, rfl⟩ := (h.quits hnext).walk hwalk
      exact ⟨[], state, .refl state, hseen ▸ List.nil_prefix, List.nil_prefix⟩
  | some step =>
      obtain ⟨event, state'⟩ := step
      obtain ⟨qs, s', hfollows⟩ := h.step hnext
      rcases hfollows.walk.split hwalk (answers_agree bs hnext) with
        ⟨hps, hbs⟩ | ⟨ps', bs', hps, rfl, hwalk'⟩
      · refine ⟨event.toList ++ [], state', .step hnext (.refl state'), ?_, ?_⟩
        · rw [List.append_nil, ← hfollows.seen]
          exact seen_prefix hps
        · rwa [List.append_nil]
      · have hless := hfollows.less hps
        obtain ⟨tr, state'', hrun, hseen, hbs⟩ :=
          Stands.exists_run ps' state' hfollows.stands hwalk'
        refine ⟨event.toList ++ tr, state'', .step hnext hrun, ?_, ?_⟩
        · rw [hps, seen_append, codeOf_append, hfollows.seen]
          exact (List.prefix_append_right_inj _).mpr hseen
        · rw [answers_append]
          exact (List.prefix_append_right_inj _).mpr hbs
termination_by ps state => (ps.length, state.size)
decreasing_by exact hless

/-! ### Paths to where control leaves -/

/-- A path that leaves goes on where another one stops. -/
theorem Walk.split_of_leave {p : α} {qs : List α} {as : List Bool} (h : G.Walk s qs as p) :
    ∀ {ps : List α} {bs : List Bool}, G.Walk s ps bs t → G.flow t = .leave →
      as <+: bs ∨ bs <+: as → ∃ ps' bs', ps = qs ++ ps' ∧ bs = as ++ bs' ∧ G.Walk p ps' bs' t := by
  induction h with
  | nil s => exact fun {ps bs} hwalk _ _ => ⟨ps, bs, rfl, rfl, hwalk⟩
  | @go s s' p qs as hflow _ ih =>
      intro ps bs hwalk hleave hagree
      cases hwalk with
      | nil _ => cases hflow.symm.trans hleave
      | go hflow' hwalk =>
          obtain rfl := Transfer.go.inj (hflow.symm.trans hflow')
          obtain ⟨ps', bs', rfl, rfl, hrest⟩ := ih hwalk hleave hagree
          exact ⟨ps', bs', rfl, rfl, hrest⟩
      | branch hflow' _ => cases hflow.symm.trans hflow'
  | @branch s yes no p b qs as hflow _ ih =>
      intro ps bs hwalk hleave hagree
      cases hwalk with
      | nil _ => cases hflow.symm.trans hleave
      | go hflow' _ => cases hflow.symm.trans hflow'
      | @branch _ _ _ _ b' ps bs hflow' hwalk =>
          obtain ⟨rfl, rfl⟩ := Transfer.branch.inj (hflow.symm.trans hflow')
          simp only [List.cons_prefix_cons] at hagree
          obtain rfl : b = b' := hagree.elim (fun h => h.1) fun h => h.1.symm
          obtain ⟨ps', bs', rfl, rfl, hrest⟩ := ih hwalk hleave (hagree.imp And.right And.right)
          exact ⟨ps', bs', rfl, rfl, hrest⟩

/-- A path that leaves executes the code of a whole run. -/
theorem Stands.exists_finished_run : ∀ (ps : List α) (state : State σ) {s t : α} {bs : List Bool},
    G.Stands state s → G.Walk s ps bs t → G.flow t = .leave →
      ∃ tr state', state.Run tr state' ∧ state'.Finished ∧ G.seen ps = G.codeOf tr ∧
        bs = answers tr := by
  intro ps state s t bs h hwalk hleave
  cases hnext : state.next (bs.headD true) with
  | none =>
      obtain ⟨hseen, rfl⟩ := (h.quits hnext).walk hwalk
      exact ⟨[], state, .refl state, h.finished hnext, hseen, rfl⟩
  | some step =>
      obtain ⟨event, state'⟩ := step
      obtain ⟨qs, s', hfollows⟩ := h.step hnext
      obtain ⟨ps', bs', hps, rfl, hwalk'⟩ :=
        hfollows.walk.split_of_leave hwalk hleave (answers_agree bs hnext)
      have hless := hfollows.less hps
      obtain ⟨tr, state'', hrun, hfinished, hseen, rfl⟩ :=
        Stands.exists_finished_run ps' state' hfollows.stands hwalk' hleave
      refine ⟨event.toList ++ tr, state'', .step hnext hrun, hfinished, ?_, ?_⟩
      · rw [hps, seen_append, codeOf_append, hfollows.seen, hseen]
      · rw [answers_append]
termination_by ps state => (ps.length, state.size)
decreasing_by exact hless

end CodeGraph
