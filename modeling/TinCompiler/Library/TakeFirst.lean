import Mathlib.Data.List.Basic

/-!
# Taking the first acceptable element out of a list

`takeFirst p l` is the loop that scans a vector for the first element accepted by
`p`, copies it out and erases it.
-/

variable {α : Type*} {p : α → Bool}

/-- The first element accepted by `p` together with the list without it. -/
def takeFirst (p : α → Bool) : List α → Option (α × List α)
  | [] => none
  | a :: rest =>
      if p a then some (a, rest)
      else (takeFirst p rest).map fun found => (found.1, a :: found.2)

theorem takeFirst_eq_none_iff {l : List α} : takeFirst p l = none ↔ ∀ a ∈ l, p a = false := by
  induction l with
  | nil => simp [takeFirst]
  | cons a rest ih =>
      by_cases ha : p a <;> simp [takeFirst, ha, ih]

/-- What a successful scan returns: the list is cut at the element, and nothing
before it was acceptable. -/
theorem takeFirst_eq_some {l rest : List α} {a : α} (h : takeFirst p l = some (a, rest)) :
    ∃ before after, l = before ++ a :: after ∧ rest = before ++ after ∧ p a = true ∧
      ∀ b ∈ before, p b = false := by
  induction l generalizing rest with
  | nil => simp [takeFirst] at h
  | cons b tail ih =>
      by_cases hb : p b
      · simp only [takeFirst, hb, if_true, Option.some.injEq, Prod.mk.injEq] at h
        obtain ⟨rfl, rfl⟩ := h
        exact ⟨[], tail, rfl, rfl, hb, by simp⟩
      · simp only [takeFirst, hb, Bool.false_eq_true, if_false, Option.map_eq_some_iff] at h
        obtain ⟨⟨found, others⟩, hfound, heq⟩ := h
        simp only [Prod.mk.injEq] at heq
        obtain ⟨rfl, rfl⟩ := heq
        obtain ⟨before, after, rfl, rfl, hfirst, hbefore⟩ := ih hfound
        refine ⟨b :: before, after, rfl, rfl, hfirst, ?_⟩
        intro c hc
        rcases List.mem_cons.mp hc with rfl | hc
        · simpa using hb
        · exact hbefore c hc

theorem perm_of_takeFirst {l rest : List α} {a : α} (h : takeFirst p l = some (a, rest)) :
    l.Perm (a :: rest) := by
  obtain ⟨before, after, rfl, rfl, -, -⟩ := takeFirst_eq_some h
  exact List.perm_middle

theorem mem_of_mem_takeFirst {l rest : List α} {a b : α} (h : takeFirst p l = some (a, rest))
    (hb : b ∈ rest) : b ∈ l :=
  (perm_of_takeFirst h).mem_iff.mpr (List.mem_cons_of_mem a hb)
