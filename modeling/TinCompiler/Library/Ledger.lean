import Mathlib.Data.List.Perm.Basic
import Mathlib.Data.List.Nodup

/-!
# Blocks that are handed out and released

A ledger is the history of an allocator: the blocks that it has handed out, and for every
call that released something the block that the call was about.  Addresses are used again,
so a block is identified by its number and a pointer means the last block at its address.

A table of the live blocks is in step with the ledger if `Accounted` holds.  Handing out at
an address that is free and releasing a block of the table keep it so (`Accounted.handOut`,
`Accounted.free`), and to release everything that is left in the table is to release every
block exactly once (`Accounted.releasedOnce`).
-/

universe u v

/-- What an allocator with addresses `κ` and sizes `σ` has done so far. -/
structure Ledger (κ : Type u) (σ : Type v) where
  /-- the newest first -/
  blocks : List (κ × σ) := []
  /-- the numbers of the blocks that were released; none for an unknown address -/
  freed : List (Option ℕ) := []

namespace Ledger

variable {κ : Type u} {σ : Type v}

/-- The blocks are numbered from the oldest one. -/
def block (l : Ledger κ σ) (n : ℕ) : Option (κ × σ) := l.blocks.reverse[n]?

/-- The block has been handed out and not yet been released. -/
def Live (l : Ledger κ σ) (n : ℕ) (entry : κ × σ) : Prop :=
  l.block n = some entry ∧ some n ∉ l.freed

def handOut (l : Ledger κ σ) (ptr : κ) (size : σ) : Ledger κ σ :=
  { l with blocks := (ptr, size) :: l.blocks }

section Addresses

variable [DecidableEq κ]

/-- The number of the last block at an address. -/
def holder (ptr : κ) : List (κ × σ) → Option ℕ
  | [] => none
  | entry :: older => if entry.1 = ptr then some older.length else holder ptr older

def free (l : Ledger κ σ) (ptr : κ) : Ledger κ σ :=
  { l with freed := holder ptr l.blocks :: l.freed }

/-- The table without an address. -/
def erase (table : List (κ × σ)) (ptr : κ) : List (κ × σ) :=
  table.filter fun entry => entry.1 ≠ ptr

/-- The table with an entry in place of what is at its address. -/
def insert (table : List (κ × σ)) (ptr : κ) (size : σ) : List (κ × σ) :=
  (ptr, size) :: erase table ptr

/-- Release whatever is in the table. -/
def freeAll (l : Ledger κ σ) (table : List (κ × σ)) : Ledger κ σ :=
  table.foldl (fun l entry => l.free entry.1) l

/-- The table has the live blocks, each once. -/
structure Accounted (l : Ledger κ σ) (table : List (κ × σ)) : Prop where
  keys : (table.map Prod.fst).Nodup
  live : ∀ entry, entry ∈ table ↔ ∃ n, l.Live n entry
  /-- no newer block is at the address of a live one -/
  last : ∀ n entry, l.Live n entry → holder entry.1 l.blocks = some n
  once : l.freed.Nodup
  known : ∀ f ∈ l.freed, ∃ n < l.blocks.length, f = some n

end Addresses

section Proofs

theorem block_lt {l : Ledger κ σ} {n : ℕ} {entry : κ × σ} (h : l.block n = some entry) :
    n < l.blocks.length := by
  have hlt := (List.getElem?_eq_some_iff.mp h).1
  rwa [List.length_reverse] at hlt

theorem block_handOut (l : Ledger κ σ) (ptr : κ) (size : σ) (n : ℕ) :
    (l.handOut ptr size).block n =
      if n = l.blocks.length then some (ptr, size) else l.block n := by
  change (List.reverse ((ptr, size) :: l.blocks))[n]? = _
  rw [List.reverse_cons, List.getElem?_append, List.length_reverse]
  split
  · next hlt => rw [if_neg (Nat.ne_of_lt hlt), block]
  · next hge =>
      by_cases heq : n = l.blocks.length
      · rw [if_pos heq, heq, Nat.sub_self]
        rfl
      · rw [if_neg heq, List.getElem?_eq_none (by rw [List.length_singleton]; omega), block,
          List.getElem?_eq_none (by rw [List.length_reverse]; omega)]

variable [DecidableEq κ] {l : Ledger κ σ} {table : List (κ × σ)} {ptr : κ}

theorem mem_erase {entry : κ × σ} : entry ∈ erase table ptr ↔ entry ∈ table ∧ entry.1 ≠ ptr := by
  rw [erase, List.mem_filter, decide_eq_true_eq]

theorem erase_keys (h : (table.map Prod.fst).Nodup) : ((erase table ptr).map Prod.fst).Nodup :=
  h.sublist (List.filter_sublist.map Prod.fst)

theorem erase_of_fresh (h : ∀ entry ∈ table, entry.1 ≠ ptr) : erase table ptr = table :=
  List.filter_eq_self.mpr fun entry hmem => decide_eq_true (h entry hmem)

namespace Accounted

theorem not_freed_length (h : l.Accounted table) : some l.blocks.length ∉ l.freed := by
  intro hmem
  obtain ⟨n, hlt, heq⟩ := h.known _ hmem
  exact absurd (Option.some.inj heq) (Nat.ne_of_gt hlt)

/-- What is live after a block has been handed out. -/
theorem live_handOut (h : l.Accounted table) {size : σ} {n : ℕ} {entry : κ × σ} :
    (l.handOut ptr size).Live n entry ↔
      (n = l.blocks.length ∧ entry = (ptr, size)) ∨ l.Live n entry := by
  change (l.handOut ptr size).block n = some entry ∧ some n ∉ l.freed ↔ _
  rw [block_handOut]
  by_cases heq : n = l.blocks.length
  · subst heq
    rw [if_pos rfl]
    constructor
    · rintro ⟨hblock, -⟩
      exact .inl ⟨rfl, (Option.some.inj hblock).symm⟩
    · rintro (⟨-, rfl⟩ | ⟨hblock, -⟩)
      · exact ⟨rfl, h.not_freed_length⟩
      · exact absurd (block_lt hblock) (Nat.lt_irrefl _)
  · rw [if_neg heq]
    exact ⟨.inr, fun hor => hor.resolve_left fun ⟨hn, _⟩ => heq hn⟩

/-- A block is handed out at an address that no live block has. -/
theorem handOut (h : l.Accounted table) (size : σ) (hfresh : ∀ n entry, l.Live n entry →
    entry.1 ≠ ptr) : (l.handOut ptr size).Accounted (insert table ptr size) := by
  have hkeys : ∀ entry ∈ table, entry.1 ≠ ptr := by
    intro entry hmem
    obtain ⟨n, hlive⟩ := (h.live entry).mp hmem
    exact hfresh n entry hlive
  rw [insert, erase_of_fresh hkeys]
  refine ⟨?_, ?_, ?_, h.once, ?_⟩
  · rw [List.map_cons, List.nodup_cons]
    refine ⟨fun hmem => ?_, h.keys⟩
    obtain ⟨entry, hentry, heq⟩ := List.mem_map.mp hmem
    exact hkeys entry hentry heq
  · intro entry
    rw [List.mem_cons, h.live]
    constructor
    · rintro (rfl | ⟨n, hlive⟩)
      · exact ⟨_, h.live_handOut.mpr (.inl ⟨rfl, rfl⟩)⟩
      · exact ⟨n, h.live_handOut.mpr (.inr hlive)⟩
    · rintro ⟨n, hlive⟩
      rcases h.live_handOut.mp hlive with ⟨-, rfl⟩ | hlive
      · exact .inl rfl
      · exact .inr ⟨n, hlive⟩
  · intro n entry hlive
    change (if ptr = entry.1 then some l.blocks.length else holder entry.1 l.blocks) = some n
    rcases h.live_handOut.mp hlive with ⟨rfl, rfl⟩ | hlive
    · rw [if_pos rfl]
    · rw [if_neg (hfresh n entry hlive).symm, h.last n entry hlive]
  · intro f hmem
    obtain ⟨n, hlt, rfl⟩ := h.known f hmem
    exact ⟨n, Nat.lt_succ_of_lt hlt, rfl⟩

/-- A block of the table is released. -/
theorem free (h : l.Accounted table) (hmem : ptr ∈ table.map Prod.fst) :
    (l.free ptr).Accounted (erase table ptr) := by
  obtain ⟨entry, hentry, rfl⟩ := List.mem_map.mp hmem
  obtain ⟨n, hlive⟩ := (h.live entry).mp hentry
  have hholder := h.last n entry hlive
  have hfreed : (l.free entry.1).freed = some n :: l.freed := by
    rw [Ledger.free, hholder]
  have hiff : ∀ k other, (l.free entry.1).Live k other ↔ l.Live k other ∧ k ≠ n := by
    intro k other
    change l.block k = some other ∧ some k ∉ (l.free entry.1).freed ↔ _
    rw [hfreed, List.mem_cons, not_or, Ledger.Live, and_assoc, and_comm (a := some k ≠ some n)]
    simp
  refine ⟨erase_keys h.keys, ?_, ?_, ?_, ?_⟩
  · intro other
    rw [mem_erase, h.live]
    constructor
    · rintro ⟨⟨k, hother⟩, hne⟩
      refine ⟨k, (hiff k other).mpr ⟨hother, fun heq => hne ?_⟩⟩
      have hsame : some other = some entry := by rw [← hother.1, ← hlive.1, heq]
      rw [Option.some.inj hsame]
    · rintro ⟨k, hother⟩
      obtain ⟨hother, hne⟩ := (hiff k other).mp hother
      refine ⟨⟨k, hother⟩, fun heq => hne ?_⟩
      -- two live blocks at one address are the last one there
      have hlast := h.last k other hother
      rw [heq, hholder] at hlast
      exact (Option.some.inj hlast).symm
  · intro k other hother
    exact h.last k other ((hiff k other).mp hother).1
  · rw [hfreed]
    exact List.nodup_cons.mpr ⟨hlive.2, h.once⟩
  · rw [hfreed]
    intro f hf
    rcases List.mem_cons.mp hf with rfl | hf
    · exact ⟨n, block_lt hlive.1, rfl⟩
    · exact h.known f hf

theorem freeAll (h : l.Accounted table) : (l.freeAll table).Accounted [] := by
  induction table generalizing l with
  | nil => exact h
  | cons entry table ih =>
      have hrest : erase (entry :: table) entry.1 = table := by
        have hnot := (List.nodup_cons.mp h.keys).1
        have hother : ∀ other ∈ table, other.1 ≠ entry.1 :=
          fun other hmem heq => hnot (List.mem_map.mpr ⟨other, hmem, heq⟩)
        rw [erase, List.filter_cons_of_neg (by simp)]
        exact erase_of_fresh hother
      have hfree := @Accounted.free _ _ _ _ _ entry.1 h (List.mem_cons_self ..)
      rw [hrest] at hfree
      exact ih hfree

end Accounted

end Proofs

end Ledger
