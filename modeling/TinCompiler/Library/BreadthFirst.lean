import Mathlib.Data.Finset.Card
import Mathlib.Logic.Relation
import Mathlib.Algebra.BigOperators.Group.List.Basic
import Mathlib.Algebra.Order.BigOperators.Group.List
import Mathlib.Algebra.Order.Ring.Nat
import TinCompiler.Library.Rounds

/-!
# Breadth-first search with a lazy duplicate test

The queue may hold a node many times: a node is queued unless it has been visited already,
whether or not it is pending.  The first visits are in breadth-first order all the same, and
the queue runs empty on every finite graph: a node that is visited again queues only nodes
that have not been visited, so a weight that is geometric in their number goes down.
-/

variable {α : Type*}

/-- A breadth-first order of the nodes that can be reached from `start`: behind each other
the successors of its nodes, without repetitions. -/
structure BreadthFirst [DecidableEq α] (next : α → List α) (start : α) (order : List α) : Prop where
  mem_iff : ∀ a, a ∈ order ↔ Relation.ReflTransGen (fun a b => b ∈ next a) start a
  successors : order = (start :: order.flatMap next).eraseDups

/-- The nodes that can be reached with at most `n` edges. -/
def Within (next : α → List α) (start : α) : ℕ → α → Prop
  | 0, a => a = start
  | n + 1, a => a = start ∨ ∃ b, Within next start n b ∧ a ∈ next b

/-- What has been visited, in order, and what is queued. -/
structure Frontier (α : Type*) where
  visited : List α
  pending : List α

namespace Frontier

variable [DecidableEq α] (next : α → List α)

/-- The next node is visited and its successors are queued. -/
def step : Frontier α → Option (Frontier α)
  | ⟨_, []⟩ => none
  | ⟨visited, a :: pending⟩ =>
      some ⟨visited ++ [a], pending ++ (next a).filter (· ∉ visited ++ [a])⟩

/-- The frontier in front of the first visit. -/
def init (start : α) : Frontier α := ⟨[], [start]⟩

theorem step_eq_none {f : Frontier α} : f.step next = none ↔ f.pending = [] := by
  obtain ⟨visited, _ | ⟨a, pending⟩⟩ := f <;> simp [step]

variable {next}

theorem step_eq_some {f f' : Frontier α} (h : f.step next = some f') :
    ∃ a pending, f.pending = a :: pending ∧ f'.visited = f.visited ++ [a] ∧
      f'.pending = pending ++ (next a).filter (· ∉ f.visited ++ [a]) := by
  obtain ⟨visited, _ | ⟨a, pending⟩⟩ := f
  · cases h
  · obtain rfl := Option.some.inj h
    exact ⟨a, pending, rfl, rfl, rfl⟩

/-! ### The order of the first visits -/

/-- The first occurrences, in the queue, are the start and the successors of what has been
visited. -/
structure Ordered (next : α → List α) (start : α) (f : Frontier α) : Prop where
  reachable : ∀ a ∈ f.visited ++ f.pending, Relation.ReflTransGen (fun a b => b ∈ next a) start a
  successors : (f.visited ++ f.pending).eraseDups =
    (start :: f.visited.eraseDups.flatMap next).eraseDups

theorem ordered_init (start : α) : Ordered next start (init start) := by
  refine ⟨fun a ha => ?_, rfl⟩
  obtain rfl := List.mem_singleton.mp ha
  exact .refl

theorem mem_successors {start a b : α} {f : Frontier α} (h : Ordered next start f)
    (ha : a ∈ f.visited) (hb : b ∈ next a) : b ∈ f.visited ++ f.pending := by
  rw [← List.mem_eraseDups, h.successors, List.mem_eraseDups]
  exact .tail _ (List.mem_flatMap.mpr ⟨a, List.mem_eraseDups.mpr ha, hb⟩)

theorem removeAll_filter_notMem {as bs cs : List α} (h : bs ⊆ cs) :
    (as.filter (· ∉ bs)).removeAll cs = as.removeAll cs := by
  unfold List.removeAll
  rw [List.filter_filter]
  refine List.filter_congr fun a _ => ?_
  by_cases ha : a ∈ cs
  · simp [ha]
  · have hb : a ∉ bs := fun hb => ha (h hb)
    simp [ha, hb]

theorem removeAll_congr {as bs cs : List α} (h : ∀ a, a ∈ bs ↔ a ∈ cs) :
    as.removeAll bs = as.removeAll cs := by
  unfold List.removeAll
  refine List.filter_congr fun a _ => ?_
  simp [h a]

theorem eraseDups_concat (as : List α) (a : α) :
    (as ++ [a]).eraseDups = if a ∈ as then as.eraseDups else as.eraseDups ++ [a] := by
  rw [List.eraseDups_append]
  split
  · next ha => simp [List.removeAll, ha]
  · next ha => simp [List.removeAll, ha, List.eraseDups_cons]

theorem Ordered.step {start : α} {f f' : Frontier α} (h : Ordered next start f)
    (hstep : f.step next = some f') : Ordered next start f' := by
  obtain ⟨a, pending, hpending, hvisited', hpending'⟩ := step_eq_some hstep
  have hqueue : f'.visited ++ f'.pending =
      (f.visited ++ f.pending) ++ (next a).filter (· ∉ f.visited ++ [a]) := by
    rw [hvisited', hpending', hpending, List.append_assoc, List.append_assoc]
    rfl
  have ha : a ∈ f.visited ++ f.pending := by simp [hpending]
  constructor
  · intro b hb
    rw [hqueue, List.mem_append] at hb
    rcases hb with hb | hb
    · exact h.reachable b hb
    · exact (h.reachable a ha).tail (List.mem_filter.mp hb).1
  · have hnew : ((next a).filter (· ∉ f.visited ++ [a])).removeAll (f.visited ++ f.pending) =
        (next a).removeAll (f.visited ++ f.pending) :=
      removeAll_filter_notMem fun b hb => by
        rcases List.mem_append.mp hb with hb | hb
        · exact List.mem_append_left _ hb
        · exact List.mem_singleton.mp hb ▸ ha
    rw [hqueue, List.eraseDups_append, hnew, hvisited', eraseDups_concat, h.successors]
    by_cases hmem : a ∈ f.visited
    · -- a second visit: the successors are in the queue already
      have hnone : (next a).removeAll (f.visited ++ f.pending) = [] :=
        List.filter_eq_nil_iff.mpr fun b hb => by
          simpa only [Bool.not_eq_true, Bool.not_eq_false', List.elem_eq_mem, decide_eq_true_eq]
            using mem_successors h hmem hb
      rw [hnone, List.eraseDups_nil, List.append_nil, if_pos hmem]
    · rw [if_neg hmem, List.flatMap_append, List.flatMap_singleton, ← List.cons_append,
        List.eraseDups_append]
      congr 2
      refine removeAll_congr fun b => ?_
      rw [← List.mem_eraseDups, h.successors, List.mem_eraseDups]

/-- When nothing is pending any more. -/
theorem Ordered.breadthFirst {start : α} {f : Frontier α} (h : Ordered next start f)
    (hpending : f.pending = []) : BreadthFirst next start f.visited.eraseDups := by
  have hqueue : f.visited ++ f.pending = f.visited := by rw [hpending, List.append_nil]
  have hsuccessors := hqueue ▸ h.successors
  refine ⟨fun a => ⟨fun ha => ?_, fun hreach => ?_⟩, hsuccessors⟩
  · exact h.reachable a (List.mem_append_left _ (List.mem_eraseDups.mp ha))
  · induction hreach with
    | refl =>
        rw [hsuccessors, List.mem_eraseDups]
        exact .head _
    | tail _ hedge ih =>
        have hmem := mem_successors h (List.mem_eraseDups.mp ih) hedge
        exact List.mem_eraseDups.mpr (hqueue ▸ hmem)

/-! ### The queue runs empty -/

section Weight

variable (nodes : Finset α) (degree : ℕ)

/-- The nodes that have not been visited. -/
def unvisited (visited : List α) : Finset α := nodes.filter (· ∉ visited)

/-- A pending node weighs more than all that it can queue. -/
def weight (visited : List α) (a : α) : ℕ :=
  (degree + 1) ^ (if a ∈ visited then (unvisited nodes visited).card
    else (unvisited nodes visited).card - 1)

def totalWeight (f : Frontier α) : ℕ := (f.pending.map (weight nodes degree f.visited)).sum

variable {nodes degree}

theorem unvisited_concat (visited : List α) (a : α) :
    unvisited nodes (visited ++ [a]) = (unvisited nodes visited).erase a := by
  ext b
  simp only [unvisited, Finset.mem_filter, List.mem_append, List.mem_singleton, Finset.mem_erase]
  tauto

/-- A visit makes no node heavier. -/
theorem weight_concat_le {visited : List α} {a : α} (ha : a ∈ nodes) (b : α) :
    weight nodes degree (visited ++ [a]) b ≤ weight nodes degree visited b := by
  refine Nat.pow_le_pow_right (Nat.succ_pos _) ?_
  rw [unvisited_concat]
  by_cases hvisited : a ∈ visited
  · have hmem : a ∉ unvisited nodes visited := by simp [unvisited, hvisited]
    rw [Finset.erase_eq_of_notMem hmem]
    by_cases hb : b ∈ visited
    · simp [hb]
    · have hne : b ≠ a := fun hne => hb (hne ▸ hvisited)
      simp [hb, hne]
  · have hmem : a ∈ unvisited nodes visited := by simp [unvisited, hvisited, ha]
    rw [Finset.card_erase_of_mem hmem]
    simp only [List.mem_append, List.mem_singleton]
    split <;> split <;> omega

/-- The nodes that a visit queues weigh less than the node itself. -/
theorem sum_weight_lt {visited : List α} {a : α} (ha : a ∈ nodes) (hclosed : ∀ b ∈ next a, b ∈ nodes)
    (hdegree : (next a).length ≤ degree) :
    (((next a).filter (· ∉ visited ++ [a])).map (weight nodes degree (visited ++ [a]))).sum <
      weight nodes degree visited a := by
  have hheavy : (degree + 1) ^ (unvisited nodes (visited ++ [a])).card ≤
      weight nodes degree visited a := by
    refine Nat.pow_le_pow_right (Nat.succ_pos _) ?_
    rw [unvisited_concat]
    split
    · exact Finset.card_le_card (Finset.erase_subset _ _)
    · next hvisited =>
        have hmem : a ∈ unvisited nodes visited := by simp [unvisited, hvisited, ha]
        rw [Finset.card_erase_of_mem hmem]
  refine lt_of_lt_of_le ?_ hheavy
  generalize hnew : (next a).filter (· ∉ visited ++ [a]) = new
  have hfresh : ∀ b ∈ new, b ∈ unvisited nodes (visited ++ [a]) := fun b hb => by
    obtain ⟨hb, hvisited⟩ := List.mem_filter.mp (hnew ▸ hb)
    exact Finset.mem_filter.mpr ⟨hclosed b hb, of_decide_eq_true hvisited⟩
  have hlength : new.length ≤ degree := (hnew ▸ List.length_filter_le _ _).trans hdegree
  rcases Nat.eq_zero_or_pos (unvisited nodes (visited ++ [a])).card with hcard | hcard
  · -- everything has been visited, so nothing is queued
    have hnil : new = [] := List.eq_nil_iff_forall_not_mem.mpr fun b hb => by
      simpa [Finset.card_eq_zero.mp hcard] using hfresh b hb
    rw [hnil]
    exact Nat.pow_pos (Nat.succ_pos _)
  · have hsame : ∀ b ∈ new, weight nodes degree (visited ++ [a]) b =
        (degree + 1) ^ ((unvisited nodes (visited ++ [a])).card - 1) := fun b hb => by
      rw [weight, if_neg (Finset.mem_filter.mp (hfresh b hb)).2]
    rw [List.map_congr_left hsame, List.map_const', List.sum_replicate, nsmul_eq_mul, Nat.cast_id]
    calc new.length * (degree + 1) ^ ((unvisited nodes (visited ++ [a])).card - 1)
        < (degree + 1) * (degree + 1) ^ ((unvisited nodes (visited ++ [a])).card - 1) :=
          Nat.mul_lt_mul_of_pos_right (by omega) (Nat.pow_pos (Nat.succ_pos _))
      _ = (degree + 1) ^ (unvisited nodes (visited ++ [a])).card := by
          rw [← Nat.pow_succ', Nat.succ_eq_add_one, Nat.sub_add_cancel hcard]

theorem totalWeight_step {f f' : Frontier α} (hnodes : ∀ a ∈ f.pending, a ∈ nodes)
    (hclosed : ∀ a ∈ nodes, ∀ b ∈ next a, b ∈ nodes)
    (hdegree : ∀ a ∈ nodes, (next a).length ≤ degree) (hstep : f.step next = some f') :
    f'.totalWeight nodes degree < f.totalWeight nodes degree := by
  obtain ⟨a, pending, hpending, hvisited', hpending'⟩ := step_eq_some hstep
  have ha : a ∈ nodes := hnodes a (hpending ▸ .head _)
  unfold totalWeight
  rw [hpending', hpending, hvisited', List.map_append, List.sum_append, List.map_cons,
    List.sum_cons, Nat.add_comm]
  exact Nat.add_lt_add_of_lt_of_le (sum_weight_lt ha (hclosed a ha) (hdegree a ha))
    (List.sum_le_sum fun b _ => weight_concat_le ha b)

end Weight

/-- The search comes to an end within `(degree + 1) ^ nodes.card` visits, and the first visits
are in breadth-first order. -/
theorem rounds_breadthFirst {nodes : Finset α} {degree : ℕ} {start : α} (hstart : start ∈ nodes)
    (hclosed : ∀ a ∈ nodes, ∀ b ∈ next a, b ∈ nodes)
    (hdegree : ∀ a ∈ nodes, (next a).length ≤ degree) {n : ℕ}
    (hn : (degree + 1) ^ nodes.card ≤ n) :
    (rounds (step next) n (init start)).pending = [] ∧
      BreadthFirst next start (rounds (step next) n (init start)).visited.eraseDups := by
  have hinside (a : α) (hreach : Relation.ReflTransGen (fun a b => b ∈ next a) start a) :
      a ∈ nodes := by
    induction hreach with
    | refl => exact hstart
    | tail _ hedge ih => exact hclosed _ ih _ hedge
  have hweight : totalWeight nodes degree (init start) ≤ n := by
    refine le_trans ?_ hn
    have hone : totalWeight nodes degree (init start) = weight nodes degree [] start :=
      Nat.add_zero _
    rw [hone]
    refine Nat.pow_le_pow_right (Nat.succ_pos _) ?_
    exact (Nat.sub_le _ _).trans (Finset.card_le_card (Finset.filter_subset _ _))
  have hnone := rounds_measure (totalWeight nodes degree) (fun _ _ => Ordered.step)
    (fun f f' h hstep => totalWeight_step
      (fun a ha => hinside a (h.reachable a (List.mem_append_right _ ha))) hclosed hdegree hstep)
    (ordered_init start) hweight
  rw [step_eq_none] at hnone
  exact ⟨hnone, (rounds_invariant (fun _ _ => Ordered.step) n (ordered_init start)).breadthFirst
    hnone⟩

end Frontier

namespace BreadthFirst

variable [DecidableEq α] {next : α → List α} {start : α} {order : List α}

/-- The nodes at a distance of at most `n` come first, for every `n`. -/
theorem within_take (h : BreadthFirst next start order) :
    ∀ n, ∃ k, ∀ a, a ∈ order.take k ↔ Within next start n a := by
  intro n
  induction n with
  | zero =>
      refine ⟨1, fun a => ?_⟩
      rw [h.successors, List.eraseDups_cons]
      simp [Within]
  | succ n ih =>
      obtain ⟨k, hk⟩ := ih
      have hsplit : order = (start :: (order.take k).flatMap next).eraseDups ++
          (((order.drop k).flatMap next).removeAll
            (start :: (order.take k).flatMap next)).eraseDups := by
        rw [← List.eraseDups_append, List.cons_append, ← List.flatMap_append, List.take_append_drop]
        exact h.successors
      have htake : order.take (start :: (order.take k).flatMap next).eraseDups.length =
          (start :: (order.take k).flatMap next).eraseDups :=
        (congrArg (List.take _) hsplit).trans List.take_left
      refine ⟨(start :: (order.take k).flatMap next).eraseDups.length, fun a => ?_⟩
      rw [htake, List.mem_eraseDups, List.mem_cons, List.mem_flatMap, Within]
      exact or_congr_right (exists_congr fun b => and_congr_left fun _ => hk b)

end BreadthFirst
