import TinCompiler.Compiler.Tasks
import TinCompiler.Library.BreadthFirst

/-!
# The order of the scope search

`iterate` walks the graph of the scopes breadth first, shared scopes before the parent, and
returns a null pointer in the end although scopes are queued many times when they can be
reached in many ways.  The lookups by name therefore see every scope that can be reached.
-/

namespace TinCompiler

namespace AST

/-- The scopes that `iterate` queues behind a scope. -/
def links (ast : AST) (scopeId : ScopeId) : List ScopeId :=
  (ast.scopes scopeId).sharedScopes ++
    if (ast.scopes scopeId).scopeId ≠ (ast.scopes scopeId).parent then
      [(ast.scopes scopeId).parent]
    else []

/-- Parents are created before their children, and the global scope is its own parent; the
shared scopes are arbitrary. -/
structure ScopeGraph (ast : AST) : Prop where
  scopeId : ∀ s < ast.scopesUsed, (ast.scopes s).scopeId = s
  globalParent : (ast.scopes globalScope).parent = globalScope
  parent : ∀ s < ast.scopesUsed, s ≠ globalScope → (ast.scopes s).parent < s
  sharedScopes : ∀ s, ∀ s' ∈ (ast.scopes s).sharedScopes, s' < ast.scopesUsed

/-- What at most `n` calls of `iterate` return in front of a null pointer, and the iterator
after them. -/
def iterations (ast : AST) : ℕ → ScopeIterator → List ScopeInfo × ScopeIterator
  | 0, iterator => ([], iterator)
  | n + 1, iterator =>
      match ast.iterate iterator with
      | none => ([], iterator)
      | some (scope, iterator) =>
          let (scopes, iterator) := ast.iterations n iterator
          (scope :: scopes, iterator)

/-! ## The iterator as a frontier -/

namespace ScopeIterator

def frontier (iterator : ScopeIterator) : Frontier ScopeId where
  visited := iterator.searchScopes.take iterator.searchIndex
  pending := iterator.searchScopes.drop iterator.searchIndex

theorem foldl_add (scopes : List ScopeId) {iterator : ScopeIterator}
    (hindex : iterator.searchIndex ≤ iterator.searchScopes.length) :
    scopes.foldl add iterator = { iterator with
      searchScopes := iterator.searchScopes ++
        scopes.filter (· ∉ iterator.searchScopes.take iterator.searchIndex) } := by
  induction scopes generalizing iterator with
  | nil => simp
  | cons scopeId scopes ih =>
      rw [List.foldl_cons, add]
      split
      · next hmem => simp [ih hindex, hmem]
      · next hmem =>
          have hgrown : iterator.searchIndex ≤ (iterator.searchScopes ++ [scopeId]).length :=
            hindex.trans (by simp)
          rw [ih hgrown]
          simp [List.take_append_of_le_length hindex, hmem]

end ScopeIterator

theorem iterate_eq_none {ast : AST} {iterator : ScopeIterator} (h : ast.iterate iterator = none) :
    iterator.frontier.step ast.links = none := by
  unfold iterate at h
  split at h
  · next hscope =>
      rw [Frontier.step_eq_none]
      exact List.drop_eq_nil_of_le (List.getElem?_eq_none_iff.mp hscope)
  · cases h

theorem iterate_of_getElem? {ast : AST} {iterator : ScopeIterator} {scopeId : ScopeId}
    (hscope : iterator.searchScopes[iterator.searchIndex]? = some scopeId) :
    ast.iterate iterator = some (ast.scopes scopeId, (ast.links scopeId).foldl ScopeIterator.add
      { iterator with searchIndex := iterator.searchIndex + 1 }) := by
  simp only [iterate, hscope, links, List.foldl_append]
  split <;> rfl

theorem iterate_eq_some {ast : AST} {iterator iterator' : ScopeIterator} {scope : ScopeInfo}
    (h : ast.iterate iterator = some (scope, iterator')) :
    iterator.frontier.step ast.links = some iterator'.frontier ∧
      ∃ scopeId, scope = ast.scopes scopeId ∧
        iterator'.frontier.visited = iterator.frontier.visited ++ [scopeId] := by
  cases hscope : iterator.searchScopes[iterator.searchIndex]? with
  | none => simp [iterate, hscope] at h
  | some scopeId =>
      obtain ⟨hlt, hget⟩ := List.getElem?_eq_some_iff.mp hscope
      have hindex : iterator.searchIndex + 1 ≤ iterator.searchScopes.length := hlt
      rw [iterate_of_getElem? hscope, ScopeIterator.foldl_add _ hindex] at h
      obtain ⟨rfl, rfl⟩ := Prod.mk.inj (Option.some.inj h)
      have htake : iterator.searchScopes.take (iterator.searchIndex + 1) =
          iterator.searchScopes.take iterator.searchIndex ++ [scopeId] := by
        rw [List.take_succ_eq_append_getElem hlt, hget]
      have hdrop : iterator.searchScopes.drop iterator.searchIndex =
          scopeId :: iterator.searchScopes.drop (iterator.searchIndex + 1) := by
        rw [List.drop_eq_getElem_cons hlt, hget]
      refine ⟨?_, scopeId, rfl, ?_⟩
      · rw [ScopeIterator.frontier, hdrop, Frontier.step, ← htake]
        simp only [ScopeIterator.frontier, List.take_append_of_le_length hindex,
          List.drop_append_of_le_length hindex]
      · simp only [ScopeIterator.frontier, List.take_append_of_le_length hindex, htake]

/-- The calls of `iterate` are the rounds of the search. -/
theorem iterations_eq {ast : AST} : ∀ {n : ℕ} {iterator : ScopeIterator},
    (ast.iterations n iterator).2.frontier = rounds (Frontier.step ast.links) n iterator.frontier ∧
      ∃ visits : List ScopeId, (ast.iterations n iterator).1 = visits.map ast.scopes ∧
        (ast.iterations n iterator).2.frontier.visited = iterator.frontier.visited ++ visits := by
  intro n
  induction n with
  | zero => exact fun {iterator} => ⟨rfl, [], rfl, (List.append_nil _).symm⟩
  | succ n ih =>
      intro iterator
      unfold iterations rounds
      cases hiterate : ast.iterate iterator with
      | none =>
          rw [iterate_eq_none hiterate]
          exact ⟨rfl, [], rfl, (List.append_nil _).symm⟩
      | some next =>
          obtain ⟨scope, iterator'⟩ := next
          obtain ⟨hstep, scopeId, rfl, hvisited⟩ := iterate_eq_some hiterate
          obtain ⟨hrounds, visits, hscopes, hvisited'⟩ := @ih iterator'
          rw [hstep]
          refine ⟨hrounds, scopeId :: visits, ?_, ?_⟩
          · exact congrArg (ast.scopes scopeId :: ·) hscopes
          · exact hvisited'.trans (by rw [hvisited, List.append_assoc]; rfl)

theorem searchFrom_eq {α : Type} (ast : AST) (select : ScopeInfo → Option α) :
    ∀ (fuel : ℕ) (iterator : ScopeIterator),
      ast.searchFrom select fuel iterator = (ast.iterations fuel iterator).1.findSome? select := by
  intro fuel
  induction fuel with
  | zero => exact fun _ => rfl
  | succ fuel ih =>
      intro iterator
      unfold searchFrom iterations
      cases ast.iterate iterator with
      | none => rfl
      | some next =>
          obtain ⟨scope, iterator'⟩ := next
          simp only [List.findSome?_cons]
          cases select scope with
          | none => exact ih iterator'
          | some found => rfl

/-! ## The graph of the scopes -/

namespace ScopeGraph

variable {ast : AST} (h : ast.ScopeGraph)

include h

theorem links_lt {s s' : ScopeId} (hs : s < ast.scopesUsed) (hlink : s' ∈ ast.links s) :
    s' < ast.scopesUsed := by
  rcases List.mem_append.mp hlink with hshared | hparent
  · exact h.sharedScopes s s' hshared
  · split at hparent
    · obtain rfl := List.mem_singleton.mp hparent
      by_cases hglobal : s = globalScope
      · rw [hglobal, h.globalParent]
        exact hglobal ▸ hs
      · exact (h.parent s hs hglobal).trans hs
    · cases hparent

theorem length_links_le {s : ScopeId} (hs : s < ast.scopesUsed) :
    (ast.links s).length ≤ ((List.range ast.scopesUsed).map fun scopeId =>
      (ast.scopes scopeId).sharedScopes.length).sum + 1 := by
  have hshared : (ast.scopes s).sharedScopes.length ≤ ((List.range ast.scopesUsed).map
      fun scopeId => (ast.scopes scopeId).sharedScopes.length).sum :=
    List.single_le_sum (fun _ _ => Nat.zero_le _) _
      (List.mem_map.mpr ⟨s, List.mem_range.mpr hs, rfl⟩)
  rw [links, List.length_append]
  refine Nat.add_le_add hshared ?_
  split <;> simp

/-- `searchFuel` is enough for a search through the whole graph. -/
theorem rounds_searchFuel {start : ScopeId} (hstart : start < ast.scopesUsed) {n : ℕ}
    (hn : ast.searchFuel ≤ n) :
    (rounds (Frontier.step ast.links) n (.init start)).pending = [] ∧
      BreadthFirst ast.links start
        (rounds (Frontier.step ast.links) n (.init start)).visited.eraseDups := by
  refine Frontier.rounds_breadthFirst (Finset.mem_range.mpr hstart)
    (fun s hs s' hlink => Finset.mem_range.mpr (h.links_lt (Finset.mem_range.mp hs) hlink))
    (fun s hs => h.length_links_le (Finset.mem_range.mp hs)) (le_trans ?_ hn)
  rw [Finset.card_range]
  exact Nat.pow_le_pow_right (Nat.succ_pos _) (Nat.le_succ _)

end ScopeGraph

/-! ## What the search visits -/

/-- A lookup that returns what the first scope of the order declares, and that succeeds if a
scope that can be reached declares anything. -/
structure FindsFirst {α : Type} (ast : AST) (start : ScopeId) (order : List ScopeId)
    (select : ScopeInfo → Option α) (found : Option α) : Prop where
  first : found = (order.map ast.scopes).findSome? select
  isSome_iff : found.isSome ↔
    ∃ s, Relation.ReflTransGen (fun s s' => s' ∈ ast.links s) start s ∧ (select (ast.scopes s)).isSome

theorem findSome?_eraseDups {α β : Type} [DecidableEq α] (f : α → Option β) (as : List α) :
    as.eraseDups.findSome? f = as.findSome? f := by
  induction as using List.reverseRecOn with
  | nil => rfl
  | append_singleton as a ih =>
      rw [Frontier.eraseDups_concat]
      split
      · next ha =>
          rw [ih, List.findSome?_append, List.findSome?_singleton]
          cases hfind : as.findSome? f with
          | some b => rfl
          | none => rw [List.findSome?_eq_none_iff.mp hfind a ha]; rfl
      · rw [List.findSome?_append, List.findSome?_append, ih]

/-- The scopes in the order of their visits, repetitions included. -/
def visits (ast : AST) (start : ScopeId) : List ScopeId :=
  (rounds (Frontier.step ast.links) ast.searchFuel (.init start)).visited

theorem iterations_searchFuel (ast : AST) (start : ScopeId) :
    (ast.iterations ast.searchFuel (createScopeIterator start)).1 =
      (ast.visits start).map ast.scopes := by
  obtain ⟨hrounds, visits, hscopes, hvisited⟩ :=
    @iterations_eq ast ast.searchFuel (createScopeIterator start)
  rw [hrounds] at hvisited
  rw [hscopes, AST.visits]
  exact congrArg (List.map ast.scopes) hvisited.symm

namespace ScopeGraph

variable {ast : AST} (h : ast.ScopeGraph) {start : ScopeId} (hstart : start < ast.scopesUsed)

include h hstart

theorem lt_of_reachable {s : ScopeId}
    (hreach : Relation.ReflTransGen (fun s s' => s' ∈ ast.links s) start s) :
    s < ast.scopesUsed := by
  induction hreach with
  | refl => exact hstart
  | tail _ hlink ih => exact h.links_lt ih hlink

theorem breadthFirst : BreadthFirst ast.links start (ast.visits start).eraseDups :=
  (h.rounds_searchFuel hstart (Nat.le_refl _)).2

theorem iterate_iterations :
    ast.iterate (ast.iterations ast.searchFuel (createScopeIterator start)).2 = none := by
  have hpending := (h.rounds_searchFuel hstart (Nat.le_refl _)).1
  have hfrontier : (ast.iterations ast.searchFuel (createScopeIterator start)).2.frontier =
      rounds (Frontier.step ast.links) ast.searchFuel (.init start) := iterations_eq.1
  cases hiterate : ast.iterate (ast.iterations ast.searchFuel (createScopeIterator start)).2 with
  | none => rfl
  | some next =>
      have hstep := (iterate_eq_some hiterate).1
      rw [hfrontier, (Frontier.step_eq_none _).mpr hpending] at hstep
      cases hstep

theorem scopeId_visits :
    ((ast.iterations ast.searchFuel (createScopeIterator start)).1.map ScopeInfo.scopeId) =
      ast.visits start := by
  rw [iterations_searchFuel, List.map_map]
  refine (List.map_congr_left fun s hs => ?_).trans (List.map_id _)
  exact h.scopeId s (h.lt_of_reachable hstart
    (((h.breadthFirst hstart).mem_iff s).mp (List.mem_eraseDups.mpr hs)))

theorem search_findsFirst {α : Type} (select : ScopeInfo → Option α) :
    ast.FindsFirst start (ast.visits start).eraseDups select (ast.search select start) := by
  have hfirst : ast.search select start =
      (ast.visits start).eraseDups.findSome? fun s => select (ast.scopes s) := by
    rw [search, searchFrom_eq, iterations_searchFuel, List.findSome?_map, findSome?_eraseDups]
    rfl
  constructor
  · rw [hfirst, List.findSome?_map]
    rfl
  · rw [hfirst, List.findSome?_isSome_iff]
    exact exists_congr fun s => and_congr_left fun _ => (h.breadthFirst hstart).mem_iff s

end ScopeGraph

/-! ## The graphs that are built -/

theorem scopeGraph_initial : initial.ScopeGraph := by
  have hnone (s : ScopeId) : (initial.scopes s).sharedScopes = [] := by
    by_cases hs : s = globalScope
    · rw [hs]
      rfl
    · rw [initial_scopes hs]
  have hglobal (s : ScopeId) (hs : s < initial.scopesUsed) : s = globalScope :=
    Nat.lt_one_iff.mp hs
  refine ⟨fun s hs => ?_, rfl, fun s hs hne => absurd (hglobal s hs) hne, fun s s' hs' => ?_⟩
  · rw [hglobal s hs]
    rfl
  · rw [hnone] at hs'
    cases hs'

theorem ScopeGraph.createScope {ast : AST} (h : ast.ScopeGraph) (hused : 0 < ast.scopesUsed)
    {parent : ScopeId} (hparent : parent < ast.scopesUsed) :
    (ast.createScope parent).2.ScopeGraph := by
  have hold {s : ScopeId} (hs : s ≠ ast.scopesUsed) :
      (ast.createScope parent).2.scopes s = ast.scopes s := Function.update_of_ne hs _ _
  have hnew : (ast.createScope parent).2.scopes ast.scopesUsed =
      { ast.scopes ast.scopesUsed with scopeId := ast.scopesUsed, parent := parent } :=
    Function.update_self _ _ _
  have hlt {s : ScopeId} (hs : s < ast.scopesUsed + 1) (hne : s ≠ ast.scopesUsed) :
      s < ast.scopesUsed := Nat.lt_of_le_of_ne (Nat.le_of_lt_succ hs) hne
  refine ⟨fun s hs => ?_, ?_, fun s hs hglobal => ?_, fun s s' hs' => ?_⟩
  · by_cases hne : s = ast.scopesUsed
    · rw [hne, hnew]
    · rw [hold hne]
      exact h.scopeId s (hlt hs hne)
  · have hglobal : globalScope ≠ ast.scopesUsed := Nat.ne_of_lt hused
    rw [hold hglobal]
    exact h.globalParent
  · by_cases hne : s = ast.scopesUsed
    · rw [hne, hnew]
      exact hparent
    · rw [hold hne]
      exact h.parent s (hlt hs hne) hglobal
  · have hshared : ((ast.createScope parent).2.scopes s).sharedScopes =
        (ast.scopes s).sharedScopes := by
      by_cases hne : s = ast.scopesUsed
      · rw [hne, hnew]
      · rw [hold hne]
    rw [hshared] at hs'
    exact (h.sharedScopes s s' hs').trans (Nat.lt_succ_self _)

theorem ScopeGraph.shareScope {ast : AST} (h : ast.ScopeGraph) {scopeId shared : ScopeId}
    (hshared : shared < ast.scopesUsed) : (ast.shareScope scopeId shared).ScopeGraph := by
  have hsame (s : ScopeId) : ((ast.shareScope scopeId shared).scopes s).scopeId =
      (ast.scopes s).scopeId ∧ ((ast.shareScope scopeId shared).scopes s).parent =
      (ast.scopes s).parent := by
    by_cases hs : s = scopeId
    · subst hs
      simp [AST.shareScope]
    · simp [AST.shareScope, hs]
  refine ⟨fun s hs => (hsame s).1.trans (h.scopeId s hs), (hsame _).2.trans h.globalParent,
    fun s hs hglobal => (hsame s).2.trans_lt (h.parent s hs hglobal), fun s s' hs' => ?_⟩
  by_cases hs : s = scopeId
  · subst hs
    simp only [AST.shareScope, Function.update_self, List.mem_append] at hs'
    rcases hs' with hs' | hs'
    · exact h.sharedScopes s s' hs'
    · exact List.mem_singleton.mp hs' ▸ hshared
  · simp only [AST.shareScope, Function.update_of_ne hs] at hs'
    exact h.sharedScopes s s' hs'

/-- The search ends with a null pointer; the first visits are all scopes that can be reached, in
breadth-first order with the shared scopes in front of the parent; and the lookups return what
the first of them declares. -/
theorem iterate_breadthFirst (ast : AST) (h : ast.ScopeGraph) (start : ScopeId)
    (hstart : start < ast.scopesUsed) :
    ∃ order : List ScopeId,
      BreadthFirst ast.links start order ∧
      (∀ n, ∃ k, ∀ s, s ∈ order.take k ↔ Within ast.links start n s) ∧
      (∃ n, ast.iterate (ast.iterations n (createScopeIterator start)).2 = none ∧
        ((ast.iterations n (createScopeIterator start)).1.map ScopeInfo.scopeId).eraseDups = order) ∧
      (∀ name, ast.FindsFirst start order (fun scope => scope.identifiers name)
        (ast.findVariable name start)) ∧
      (∀ name, ast.FindsFirst start order (fun scope => scope.typeMap name)
        (ast.findType name start)) ∧
      (∀ name, ast.FindsFirst start order
        (fun scope => scope.functions.find? fun f => (ast.functions f).name = name)
        (ast.findFunction name start)) := by
  refine ⟨(ast.visits start).eraseDups, h.breadthFirst hstart,
    (h.breadthFirst hstart).within_take, ⟨ast.searchFuel, h.iterate_iterations hstart, ?_⟩,
    fun name => h.search_findsFirst hstart _, fun name => h.search_findsFirst hstart _,
    fun name => h.search_findsFirst hstart _⟩
  rw [h.scopeId_visits hstart]

/-- The scopes of two files. -/
def twoFiles : AST := ((initial.createScope globalScope).2.createScope globalScope).2

theorem twoFiles_scopeGraph : twoFiles.ScopeGraph :=
  (scopeGraph_initial.createScope Nat.one_pos Nat.one_pos).createScope Nat.two_pos Nat.two_pos

theorem twoFiles_scopesUsed : twoFiles.scopesUsed = 3 := rfl

/-- The two files import each other, one of them twice. -/
def cyclic : AST := ((twoFiles.shareScope 1 2).shareScope 2 1).shareScope 1 2

theorem cyclic_scopesUsed : cyclic.scopesUsed = 3 := rfl

theorem cyclic_scopeGraph : cyclic.ScopeGraph := by
  have htwo : 2 < twoFiles.scopesUsed := by rw [twoFiles_scopesUsed]; decide
  have hone : 1 < (twoFiles.shareScope 1 2).scopesUsed := by
    change 1 < twoFiles.scopesUsed
    rw [twoFiles_scopesUsed]
    decide
  exact ((twoFiles_scopeGraph.shareScope htwo).shareScope hone).shareScope htwo

theorem iterate_cyclic :
    ∃ order : List ScopeId, BreadthFirst cyclic.links 1 order ∧
      ∃ n, cyclic.iterate (cyclic.iterations n (createScopeIterator 1)).2 = none ∧
        ((cyclic.iterations n (createScopeIterator 1)).1.map ScopeInfo.scopeId).eraseDups =
          order := by
  have hstart : 1 < cyclic.scopesUsed := by rw [cyclic_scopesUsed]; decide
  obtain ⟨order, hbreadth, -, hends, -⟩ := iterate_breadthFirst cyclic cyclic_scopeGraph 1 hstart
  exact ⟨order, hbreadth, hends⟩

end AST

end TinCompiler
