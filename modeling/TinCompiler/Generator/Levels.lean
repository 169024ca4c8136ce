import TinCompiler.Generator.FinalRet

/-!
# The level of the stack pointer

The generator keeps one `current_frameOffset` while it emits the code of many paths.  Here a
level is found for every position of the code, so that each edge of the control flow changes it
by what the instruction adds to the stack pointer: straight code adds up, a `break`, a
`continue` or a `return` brings the level to that of its target, and behind it the level starts
again at `prev_frameOffset`.  Jumps are followed while their targets are open, and until they
get them the level at the jump is kept.  So on every path the stack pointer is where the
generator had it, at the start of each statement, and it is back at each `ret`
(`AcceptedFunction.levels`), if the code that is straight is balanced.
-/

namespace TinCompiler

open GeneratorM

/-! ## Levels of words -/

section Words

variable {total : ℕ → ℤ} {words new : List Word} {isOpen isOpen' : Set ℕ} {level level' : ℕ → ℤ}
  {i j r : ℕ} {v x : ℤ}

/-- The jump at `i` has no target yet, or one of the same level. -/
def Lands (words : List Word) (isOpen : Set ℕ) (level : ℕ → ℤ) (i : ℕ) : Prop :=
  i + 1 ∉ isOpen → ∃ j ≤ words.length, words[i + 1]? = some (.arg (j - (i + 1 : ℕ))) ∧
    level j = level i

/-- Where control goes on from `i` the level is that of `i`, changed by what `total` says of
the code in between; a return is at level 0. -/
def FitsAt (total : ℕ → ℤ) (words : List Word) (isOpen : Set ℕ) (level : ℕ → ℤ) (i : ℕ) : Prop :=
  match words[i]? with
  | some .single => level (i + 1) = level i + (total (i + 1) - total i)
  | some .double => (∃ v, words[i + 1]? = some (.arg v)) ∧
      level (i + 2) = level i + (total (i + 2) - total i)
  | some .branch => (∃ v, words[i + 1]? = some (.arg v)) ∧ level (i + 2) = level i ∧
      Lands words isOpen level i
  | some .jump => (∃ v, words[i + 1]? = some (.arg v)) ∧ Lands words isOpen level i
  | some .ret => level i = 0
  | _ => True

def Fits (total : ℕ → ℤ) (words : List Word) (isOpen : Set ℕ) (level : ℕ → ℤ) : Prop :=
  ∀ i, FitsAt total words isOpen level i

/-- The levels are the same up to the end of the words. -/
def Agree (words : List Word) (level level' : ℕ → ℤ) : Prop := ∀ k ≤ words.length, level' k = level k

theorem Agree.update (hlt : words.length < j) (x : ℤ) :
    Agree words level (Function.update level j x) :=
  fun _ hk => Function.update_of_ne (by omega) _ _

theorem getElem?_append_of_some {word : Word} (h : words[i]? = some word) :
    (words ++ new)[i]? = some word := by
  rw [List.getElem?_append_left (List.getElem?_eq_some_iff.mp h).1, h]

theorem Lands.append (h : Lands words isOpen level i) (hi : i < words.length)
    (hsub : isOpen ⊆ isOpen') (hagree : Agree words level level') :
    Lands (words ++ new) isOpen' level' i := by
  intro hopen
  obtain ⟨j, hj, harg, hlevel⟩ := h fun hmem => hopen (hsub hmem)
  refine ⟨j, Nat.le_trans hj (by simp), getElem?_append_of_some harg, ?_⟩
  rw [hagree j hj, hagree i hi.le, hlevel]

theorem FitsAt.append (h : FitsAt total words isOpen level i) (hi : i < words.length)
    (hsub : isOpen ⊆ isOpen') (hagree : Agree words level level') :
    FitsAt total (words ++ new) isOpen' level' i := by
  have harg : (∃ v, words[i + 1]? = some (.arg v)) → (∃ v, (words ++ new)[i + 1]? = some (.arg v)) ∧
      i + 2 ≤ words.length := by
    rintro ⟨v, hv⟩
    exact ⟨⟨v, getElem?_append_of_some hv⟩, (List.getElem?_eq_some_iff.mp hv).1⟩
  unfold FitsAt at h ⊢
  rw [List.getElem?_append_left hi]
  split at h
  · rw [hagree i hi.le, hagree (i + 1) hi, h]
  · obtain ⟨hnext, hle⟩ := harg h.1
    exact ⟨hnext, by rw [hagree i hi.le, hagree (i + 2) hle, h.2]⟩
  · obtain ⟨hnext, hle⟩ := harg h.1
    exact ⟨hnext, by rw [hagree i hi.le, hagree (i + 2) hle, h.2.1], h.2.2.append hi hsub hagree⟩
  · exact ⟨(harg h.1).1, h.2.append hi hsub hagree⟩
  · rw [hagree i hi.le, h]
  · trivial

/-- What is new fits, too. -/
theorem Fits.append (h : Fits total words isOpen level) (hsub : isOpen ⊆ isOpen')
    (hagree : Agree words level level')
    (hnew : ∀ k < new.length, FitsAt total (words ++ new) isOpen' level' (words.length + k)) :
    Fits total (words ++ new) isOpen' level' := by
  intro i
  by_cases hlt : i < words.length
  · exact (h i).append hlt hsub hagree
  · obtain ⟨k, rfl⟩ := Nat.exists_eq_add_of_le (Nat.le_of_not_lt hlt)
    by_cases hk : k < new.length
    · exact hnew k hk
    · have hnone : (words ++ new)[words.length + k]? = none := by
        rw [List.getElem?_eq_none_iff, List.length_append]
        omega
      rw [FitsAt, hnone]
      trivial

theorem getElem?_append_add (k : ℕ) : (words ++ new)[words.length + k]? = new[k]? := by
  rw [List.getElem?_append_right (Nat.le_add_right _ _), Nat.add_sub_cancel_left]

theorem fitsAt_arg (h : words[i]? = some (.arg v)) : FitsAt total words isOpen level i := by
  rw [FitsAt, h]
  trivial

theorem Fits.single (h : Fits total words isOpen level) : Fits total (words ++ [.single]) isOpen
    (Function.update level (words.length + 1)
      (level words.length + (total (words.length + 1) - total words.length))) := by
  refine h.append subset_rfl (.update (Nat.lt_succ_self _) _) fun k hk => ?_
  obtain rfl : k = 0 := Nat.lt_one_iff.mp hk
  have hword : (words ++ [.single])[words.length + 0]? = some Word.single :=
    getElem?_append_add 0
  rw [FitsAt, hword]
  simp

theorem Fits.double (h : Fits total words isOpen level) (v : ℤ) :
    Fits total (words ++ [.double, .arg v]) isOpen (Function.update level (words.length + 2)
      (level words.length + (total (words.length + 2) - total words.length))) := by
  refine h.append subset_rfl (.update (by omega) _) fun k hk => ?_
  have hword : (words ++ [.double, .arg v])[words.length + 0]? = some Word.double :=
    getElem?_append_add 0
  have harg : (words ++ [.double, .arg v])[words.length + 1]? = some (Word.arg v) :=
    getElem?_append_add 1
  match k, hk with
  | 0, _ =>
      rw [FitsAt, hword]
      exact ⟨⟨v, harg⟩, by simp⟩
  | 1, _ => exact fitsAt_arg harg

/-- A jump whose target is open. -/
theorem Fits.openJump (h : Fits total words isOpen level) (hsub : isOpen ⊆ isOpen')
    (hopen : words.length + 1 ∈ isOpen') (v x : ℤ) : Fits total (words ++ [.jump, .arg v]) isOpen'
      (Function.update level (words.length + 2) x) := by
  refine h.append hsub (.update (by omega) _) fun k hk => ?_
  have hword : (words ++ [.jump, .arg v])[words.length + 0]? = some Word.jump :=
    getElem?_append_add 0
  have harg : (words ++ [.jump, .arg v])[words.length + 1]? = some (Word.arg v) :=
    getElem?_append_add 1
  match k, hk with
  | 0, _ =>
      rw [FitsAt, hword]
      exact ⟨⟨v, harg⟩, fun hnot => absurd hopen hnot⟩
  | 1, _ => exact fitsAt_arg harg

theorem Fits.openBranch (h : Fits total words isOpen level) (hsub : isOpen ⊆ isOpen')
    (hopen : words.length + 1 ∈ isOpen') (v : ℤ) : Fits total (words ++ [.branch, .arg v]) isOpen'
      (Function.update level (words.length + 2) (level words.length)) := by
  refine h.append hsub (.update (by omega) _) fun k hk => ?_
  have hword : (words ++ [.branch, .arg v])[words.length + 0]? = some Word.branch :=
    getElem?_append_add 0
  have harg : (words ++ [.branch, .arg v])[words.length + 1]? = some (Word.arg v) :=
    getElem?_append_add 1
  match k, hk with
  | 0, _ =>
      rw [FitsAt, hword]
      exact ⟨⟨v, harg⟩, by simp, fun hnot => absurd hopen hnot⟩
  | 1, _ => exact fitsAt_arg harg

/-- A jump back to a place of the same level. -/
theorem Fits.jumpTo (h : Fits total words isOpen level) (hj : j ≤ words.length)
    (hlevel : level j = level words.length) (x : ℤ) :
    Fits total (words ++ [.jump, .arg (j - (words.length + 1 : ℕ))]) isOpen
      (Function.update level (words.length + 2) x) := by
  refine h.append subset_rfl (.update (by omega) _) fun k hk => ?_
  have hword : (words ++ [.jump, .arg (j - (words.length + 1 : ℕ))])[words.length + 0]? =
      some Word.jump := getElem?_append_add 0
  have harg : (words ++ [.jump, .arg (j - (words.length + 1 : ℕ))])[words.length + 1]? =
      some (Word.arg (j - (words.length + 1 : ℕ))) := getElem?_append_add 1
  match k, hk with
  | 0, _ =>
      rw [FitsAt, hword]
      refine ⟨⟨_, harg⟩, fun _ => ⟨j, Nat.le_trans hj (by simp), harg, ?_⟩⟩
      rw [Function.update_of_ne (by omega), Function.update_of_ne (by omega)]
      exact hlevel
  | 1, _ => exact fitsAt_arg harg

theorem Fits.ret (h : Fits total words isOpen level) (hzero : level words.length = 0) (x : ℤ) :
    Fits total (words ++ [.ret]) isOpen (Function.update level (words.length + 1) x) := by
  refine h.append subset_rfl (.update (Nat.lt_succ_self _) _) fun k hk => ?_
  obtain rfl : k = 0 := Nat.lt_one_iff.mp hk
  have hword : (words ++ [.ret])[words.length + 0]? = some Word.ret := getElem?_append_add 0
  rw [FitsAt, hword]
  simpa using hzero

/-- Straight code. -/
theorem Fits.straight (hnew : StraightWords new) : ∀ {words : List Word} {level : ℕ → ℤ},
    Fits total words isOpen level → ∃ level', Agree words level level' ∧
      level' (words ++ new).length =
        level words.length + (total (words ++ new).length - total words.length) ∧
      Fits total (words ++ new) isOpen level' := by
  induction hnew with
  | nil =>
      intro words level h
      refine ⟨level, fun _ _ => rfl, ?_, ?_⟩
      · rw [List.append_nil]
        omega
      · rwa [List.append_nil]
  | @single new _ ih =>
      intro words level h
      obtain ⟨level', hagree, hlevel, hfits⟩ := ih h.single
      rw [List.append_assoc] at hlevel hfits
      have hlength : (words ++ [Word.single]).length = words.length + 1 := by simp
      refine ⟨level', fun k hk => ?_, ?_, hfits⟩
      · rw [hagree k (by omega), Function.update_of_ne (by omega)]
      · refine hlevel.trans ?_
        rw [hlength, Function.update_self]
        change _ + (total (words ++ .single :: new).length - _) = _
        omega
  | @double new v _ ih =>
      intro words level h
      obtain ⟨level', hagree, hlevel, hfits⟩ := ih (h.double v)
      rw [List.append_assoc] at hlevel hfits
      have hlength : (words ++ [Word.double, Word.arg v]).length = words.length + 2 := by simp
      refine ⟨level', fun k hk => ?_, ?_, hfits⟩
      · rw [hagree k (by omega), Function.update_of_ne (by omega)]
      · refine hlevel.trans ?_
        rw [hlength, Function.update_self]
        change _ + (total (words ++ .double :: .arg v :: new).length - _) = _
        omega

theorem getElem?_fixWords_self (h : words[r]? = some (.arg v)) :
    (fixWords words r)[r]? = some (.arg (words.length - r)) :=
  List.getElem?_set_self (List.getElem?_eq_some_iff.mp h).1

theorem getElem?_fixWords_of_ne (hne : i ≠ r) : (fixWords words r)[i]? = words[i]? :=
  List.getElem?_set_ne (Ne.symm hne)

/-- The jump gets its target. -/
theorem Fits.fix (h : Fits total words (insert r isOpen) level)
    (harg : words[r]? = some (.arg v)) (hlevel : ∀ i, r = i + 1 → level words.length = level i) :
    Fits total (fixWords words r) isOpen level := by
  have hlength : (fixWords words r).length = words.length := List.length_set
  have hargs : ∀ i, (∃ v, words[i + 1]? = some (.arg v)) →
      ∃ v, (fixWords words r)[i + 1]? = some (.arg v) := by
    rintro i ⟨w, hw⟩
    by_cases heq : i + 1 = r
    · subst heq
      exact ⟨_, getElem?_fixWords_self harg⟩
    · exact ⟨w, (getElem?_fixWords_of_ne heq).trans hw⟩
  have hlands : ∀ i, Lands words (insert r isOpen) level i →
      Lands (fixWords words r) isOpen level i := by
    intro i hlands hnot
    by_cases heq : i + 1 = r
    · subst heq
      exact ⟨words.length, hlength.ge, getElem?_fixWords_self harg, hlevel i rfl⟩
    · obtain ⟨j, hj, hw, hsame⟩ := hlands fun hmem => hmem.elim heq hnot
      exact ⟨j, hlength ▸ hj, (getElem?_fixWords_of_ne heq).trans hw, hsame⟩
  intro i
  by_cases heq : i = r
  · subst heq
    exact fitsAt_arg (getElem?_fixWords_self harg)
  · have hi := h i
    unfold FitsAt at hi ⊢
    rw [getElem?_fixWords_of_ne heq]
    split at hi
    · exact hi
    · exact ⟨hargs i hi.1, hi.2⟩
    · exact ⟨hargs i hi.1, hi.2.1, hlands i hi.2.2⟩
    · exact ⟨hargs i hi.1, hlands i hi.2⟩
    · exact hi
    · trivial

end Words

/-! ## Levels of contexts -/

/-- The immediates of the breaks that are not resolved. -/
def openBreaks (loops : List LoopScope) : Set ℕ := {r | ∃ loop ∈ loops, r ∈ loop.breaksToResolve}

theorem openBreaks_append (loops loops' : List LoopScope) :
    openBreaks (loops ++ loops') = openBreaks loops ∪ openBreaks loops' := by
  ext r
  simp only [openBreaks, List.mem_append, Set.mem_ofPred_eq, Set.mem_union, or_and_right, exists_or]

theorem openBreaks_singleton (loop : LoopScope) :
    openBreaks [loop] = {r | r ∈ loop.breaksToResolve} := by
  simp [openBreaks]

/-- Where the loop begins and at its breaks the level is the one of the loop. -/
structure LoopScope.LevelledIn (loop : LoopScope) (words : List Word) (level : ℕ → ℤ) : Prop where
  continues : loop.continuePc ≤ words.length ∧ level loop.continuePc = loop.frameOffset
  breaks : ∀ r ∈ loop.breaksToResolve, ∃ i v, r = i + 1 ∧ words[r]? = some (.arg v) ∧
    level i = loop.frameOffset

theorem LoopScope.LevelledIn.keep {loop : LoopScope} {words words' : List Word}
    {level level' : ℕ → ℤ} (h : loop.LevelledIn words level) (hkeeps : KeepsWords words words')
    (hagree : Agree words level level') : loop.LevelledIn words' level' where
  continues := ⟨Nat.le_trans h.continues.1 hkeeps.length_le,
    (hagree _ h.continues.1).trans h.continues.2⟩
  breaks := by
    intro r hr
    obtain ⟨i, v, rfl, harg, hlevel⟩ := h.breaks r hr
    obtain ⟨v', harg'⟩ := hkeeps.arg harg
    have hlt := (List.getElem?_eq_some_iff.mp harg).1
    exact ⟨i, v', rfl, harg', (hagree i (by omega)).trans hlevel⟩

/-- The levels fit to the code so far, and to what the generator keeps of it. -/
structure Levelled (total : ℕ → ℤ) (isOpen : Set ℕ) (c : GeneratorContext) (level : ℕ → ℤ) :
    Prop where
  fits : Fits total c.words (isOpen ∪ openBreaks c.loopScopes) level
  here : level c.words.length = c.currentFrameOffset
  starts : ∀ start ∈ c.starts, start.1 ≤ c.words.length ∧ level start.1 = start.2
  loops : ∀ loop ∈ c.loopScopes, loop.LevelledIn c.words level

/-- Levels up to `c` are continued to `c'`, whatever is open in front of it. -/
structure Continues (total : ℕ → ℤ) (c c' : GeneratorContext) : Prop where
  le : c.words.length ≤ c'.words.length
  level : ∀ isOpen level, Levelled total isOpen c level →
    ∃ level', Agree c.words level level' ∧ Levelled total isOpen c' level'

/-- What the code between the contexts adds to the stack pointer. -/
def Adds (total : ℕ → ℤ) (c c' : GeneratorContext) (amount : ℤ) : Prop :=
  total c'.words.length = total c.words.length + amount

section Contexts

variable {total : ℕ → ℤ} {isOpen isOpen' : Set ℕ} {c c₁ c₂ c₃ c₄ c₅ c₆ : GeneratorContext}
  {level level' : ℕ → ℤ}

theorem Agree.trans {words words' : List Word} {level'' : ℕ → ℤ} (h : Agree words level level')
    (hle : words.length ≤ words'.length) (h' : Agree words' level' level'') :
    Agree words level level'' :=
  fun k hk => (h' k (Nat.le_trans hk hle)).trans (h k hk)

theorem Agree.refl (words : List Word) (level : ℕ → ℤ) : Agree words level level := fun _ _ => rfl

theorem Continues.refl (total : ℕ → ℤ) (c : GeneratorContext) : Continues total c c :=
  ⟨Nat.le_refl _, fun _ level h => ⟨level, .refl _ _, h⟩⟩

theorem Continues.trans (h : Continues total c c₁) (h' : Continues total c₁ c₂) :
    Continues total c c₂ := by
  refine ⟨Nat.le_trans h.le h'.le, fun isOpen level hlevel => ?_⟩
  obtain ⟨level₁, hagree₁, hlevel₁⟩ := h.level isOpen level hlevel
  obtain ⟨level₂, hagree₂, hlevel₂⟩ := h'.level isOpen level₁ hlevel₁
  exact ⟨level₂, hagree₁.trans h.le hagree₂, hlevel₂⟩

/-- New code behind the old. -/
theorem Levelled.append {new : List Word} (h : Levelled total isOpen c level)
    (hwords : c₁.words = c.words ++ new) (hloops : c₁.loopScopes = c.loopScopes)
    (hstarts : c₁.starts = c.starts) (hagree : Agree c.words level level')
    (hfits : Fits total (c.words ++ new) (isOpen' ∪ openBreaks c.loopScopes) level')
    (hhere : level' c₁.words.length = c₁.currentFrameOffset) :
    Levelled total isOpen' c₁ level' := by
  have hkeeps : KeepsWords c.words c₁.words := .of_append (hwords ▸ List.prefix_append _ _)
  refine ⟨?_, hhere, fun start hmem => ?_, fun loop hmem => ?_⟩
  · rwa [hwords, hloops]
  · obtain ⟨hle, hlevel⟩ := h.starts start (hstarts ▸ hmem)
    exact ⟨Nat.le_trans hle hkeeps.length_le, (hagree _ hle).trans hlevel⟩
  · exact (h.loops loop (hloops ▸ hmem)).keep hkeeps hagree

/-- Straight code that adds what the generator has accounted for. -/
theorem Straightly.continues (h : Straightly c c₁) (hstarts : c₁.starts = c.starts)
    (hadds : Adds total c c₁ (c₁.currentFrameOffset - c.currentFrameOffset)) :
    Continues total c c₁ := by
  refine ⟨h.length_le, fun isOpen level hlevel => ?_⟩
  obtain ⟨new, hnew, hwords⟩ := h.straight
  obtain ⟨level', hagree, hend, hfits⟩ := Fits.straight hnew hlevel.fits
  refine ⟨level', hagree, hlevel.append hwords h.loops hstarts hagree hfits ?_⟩
  rw [Adds] at hadds
  rw [hwords] at hadds ⊢
  rw [hend, hadds, hlevel.here]
  omega

/-- Nothing but what the levels do not depend on is different. -/
theorem Continues.of_same (hwords : c₁.words = c.words) (hloops : c₁.loopScopes = c.loopScopes)
    (hstarts : c₁.starts = c.starts) (hframe : c₁.currentFrameOffset = c.currentFrameOffset) :
    Continues total c c₁ := by
  refine ⟨Nat.le_of_eq (by rw [hwords]), fun isOpen level h => ⟨level, .refl _ _, ?_, ?_, ?_, ?_⟩⟩
  · rw [hwords, hloops]
    exact h.fits
  · rw [hwords, hframe]
    exact h.here
  · rw [hwords, hstarts]
    exact h.starts
  · rw [hwords, hloops]
    exact h.loops

theorem continues_recordStart (c : GeneratorContext) : Continues total c (recordStart c).2 := by
  refine ⟨Nat.le_refl _, fun isOpen level h => ⟨level, .refl _ _, h.fits, h.here, ?_, h.loops⟩⟩
  intro start hmem
  rcases List.mem_append.mp hmem with hmem | hmem
  · exact h.starts start hmem
  · obtain rfl := List.mem_singleton.mp hmem
    rw [← c.length_words]
    exact ⟨Nat.le_refl _, h.here⟩

/-! ### Jumps -/

/-- The `jz` behind a condition. -/
theorem Levelled.jz (hready : Ready c) (h : Levelled total isOpen c level) :
    Levelled total (insert (c.words.length + 1) isOpen) (generateJz c).2
      (Function.update level (c.words.length + 2) (level c.words.length)) := by
  obtain ⟨-, hwords, -⟩ := generateJz_ran hready
  have hlength : (generateJz c).2.words.length = c.words.length + 2 := by
    rw [hwords, List.length_append]
    rfl
  have hsub : isOpen ∪ openBreaks c.loopScopes ⊆
      insert (c.words.length + 1) isOpen ∪ openBreaks c.loopScopes :=
    Set.union_subset_union_left _ (Set.subset_insert _ _)
  have hopen := h.fits.openBranch hsub (.inl (Set.mem_insert _ _)) 0
  refine h.append hwords rfl rfl (.update (by omega) _) hopen ?_
  rw [hlength, Function.update_self]
  exact h.here

/-- A `jmp` with its target open; what is behind it is at the level of the generator. -/
theorem Levelled.jmp (hready : Ready c) (h : Levelled total isOpen c level) :
    Levelled total (insert (c.words.length + 1) isOpen) (generateJmp c).2
      (Function.update level (c.words.length + 2) c.currentFrameOffset) := by
  obtain ⟨-, hwords, -⟩ := generateJmp_ran hready
  have hlength : (generateJmp c).2.words.length = c.words.length + 2 := by
    rw [hwords, List.length_append]
    rfl
  have hsub : isOpen ∪ openBreaks c.loopScopes ⊆
      insert (c.words.length + 1) isOpen ∪ openBreaks c.loopScopes :=
    Set.union_subset_union_left _ (Set.subset_insert _ _)
  have hopen := h.fits.openJump hsub (.inl (Set.mem_insert _ _)) 0 c.currentFrameOffset
  refine h.append hwords rfl rfl (.update (by omega) _) hopen ?_
  rw [hlength, Function.update_self]
  rfl

/-- The target of a jump from here is here. -/
theorem Levelled.fixJump {r : ℕ} {v : ℤ} (h : Levelled total (insert r isOpen) c level)
    (harg : c.words[r]? = some (.arg v)) (hlevel : ∀ i, r = i + 1 → level i = c.currentFrameOffset) :
    Levelled total isOpen (fixJump r c).2 level := by
  have hwords : (TinCompiler.fixJump r c).2.words = fixWords c.words r := words_fixJumpHere c r
  have hkeeps : KeepsWords c.words (TinCompiler.fixJump r c).2.words := hwords ▸ .set _ harg
  have hlength := length_fixJump r c
  have hfits := h.fits
  rw [Set.insert_union] at hfits
  refine ⟨?_, ?_, fun start hmem => ?_, fun loop hmem => ?_⟩
  · rw [hwords]
    exact hfits.fix harg fun i hi => h.here.trans (hlevel i hi).symm
  · rw [hlength]
    exact h.here
  · rw [hlength]
    exact h.starts start hmem
  · exact (h.loops loop hmem).keep hkeeps (.refl _ _)

theorem continues_ifThen (hcond : Straightly c c₁) (hsame : Continues total c c₁)
    (hframe : c₁.currentFrameOffset = c.currentFrameOffset) (hran : Ran (generateJz c₁).2 c₃)
    (hbody : Continues total (generateJz c₁).2 c₃)
    (hback : c₃.currentFrameOffset = c.currentFrameOffset) :
    Continues total c (TinCompiler.fixJump (generateJz c₁).1 c₃).2 := by
  obtain ⟨hran₂, hwords₂, hr⟩ := generateJz_ran hcond.ran.ready
  obtain ⟨v, harg⟩ := exists_arg_of_jz hcond hran
  have hle₂ := hran₂.words.length_le
  have hlength := length_fixJump (c₁.words.length + 1) c₃
  rw [hr]
  refine ⟨?_, fun isOpen level h => ?_⟩
  · rw [hlength]
    exact Nat.le_trans hsame.le (Nat.le_trans hle₂ hbody.le)
  obtain ⟨level₁, hagree₁, h₁⟩ := hsame.level isOpen level h
  obtain ⟨level₃, hagree₃, h₃⟩ := hbody.level _ _ (h₁.jz hcond.ran.ready)
  have hagree : Agree c₁.words level₁ level₃ :=
    (Agree.update (by omega) _).trans hle₂ hagree₃
  refine ⟨level₃, hagree₁.trans hsame.le hagree, h₃.fixJump harg fun i hi => ?_⟩
  obtain rfl := Nat.succ.inj hi
  rw [hagree _ (Nat.le_refl _), h₁.here, hframe, hback]

theorem continues_ifElse (hcond : Straightly c c₁) (hsame : Continues total c c₁)
    (hframe : c₁.currentFrameOffset = c.currentFrameOffset) (hran : Ran (generateJz c₁).2 c₃)
    (hbody : Continues total (generateJz c₁).2 c₃)
    (hback : c₃.currentFrameOffset = c.currentFrameOffset)
    (hran' : Ran (TinCompiler.fixJump (generateJz c₁).1 (generateJmp c₃).2).2 c₆)
    (helse : Continues total (TinCompiler.fixJump (generateJz c₁).1 (generateJmp c₃).2).2 c₆)
    (hback' : c₆.currentFrameOffset = c.currentFrameOffset) :
    Continues total c (TinCompiler.fixJump (generateJmp c₃).1 c₆).2 := by
  obtain ⟨hran₂, hwords₂, hr⟩ := generateJz_ran hcond.ran.ready
  obtain ⟨hran₄, hwords₄, hr'⟩ := generateJmp_ran hran.ready
  rw [hr] at hran' helse
  rw [hr']
  obtain ⟨v, harg⟩ := exists_arg_of_jz hcond (hran.trans hran₄)
  have hran₅ : Ran (generateJmp c₃).2 (TinCompiler.fixJump (c₁.words.length + 1) (generateJmp c₃).2).2 :=
    hran₄.ready.fixJumpHere harg
  obtain ⟨v', harg'⟩ := exists_arg_of_jmp hran.ready (hran₅.trans hran')
  have hlength₅ := length_fixJump (c₁.words.length + 1) (generateJmp c₃).2
  have hlength₇ := length_fixJump (c₃.words.length + 1) c₆
  have hlt₂ : c₁.words.length + 2 = (generateJz c₁).2.words.length := by
    rw [hwords₂, List.length_append]
    rfl
  have hlt₄ : c₃.words.length + 2 = (generateJmp c₃).2.words.length := by
    rw [hwords₄, List.length_append]
    rfl
  have hle := hsame.le
  have hle₃ := hbody.le
  have hle₆ := helse.le
  refine ⟨by omega, fun isOpen level h => ?_⟩
  obtain ⟨level₁, hagree₁, h₁⟩ := hsame.level isOpen level h
  -- the target of the `jmp` is open through the `else`
  obtain ⟨level₃, hagree₃, h₃⟩ := hbody.level _ _ (h₁.jz hcond.ran.ready)
  have h₄ := h₃.jmp hran.ready
  rw [Set.insert_comm] at h₄
  have hfirst : Agree c₁.words level₁ level₃ := (Agree.update (by omega) _).trans (by omega) hagree₃
  have hsecond : Agree c₃.words level₃
      (Function.update level₃ (c₃.words.length + 2) c₃.currentFrameOffset) :=
    .update (by omega) _
  obtain ⟨level₆, hagree₆, h₆⟩ := helse.level _ _ (h₄.fixJump harg fun i hi => by
    obtain rfl := Nat.succ.inj hi
    rw [hsecond _ (by omega), hfirst _ (Nat.le_refl _), h₁.here, hframe]
    exact hback.symm)
  have hthird : Agree c₃.words level₃ level₆ := hsecond.trans (by omega) hagree₆
  refine ⟨level₆, hagree₁.trans hsame.le (hfirst.trans (by omega) hthird),
    h₆.fixJump harg' fun i hi => ?_⟩
  obtain rfl := Nat.succ.inj hi
  rw [hthird _ (Nat.le_refl _), h₃.here, hback, hback']

/-! ### Leaving a block -/

theorem framed_releaseTo (frame : ℤ) : (releaseTo frame).Framed := by
  refine Framed.getContext.bind fun c => ?_
  split
  · exact Framed.emit _
  · exact Framed.pure _

/-- The frame is released, and the generator goes on with it. -/
theorem continues_release {frame : ℤ} (h : Ready c)
    (hadds : Adds total c (releaseTo frame c).2 (frame - c.currentFrameOffset)) :
    Continues total c (setFrameOffset frame (releaseTo frame c).2).2 := by
  have hstraight := straight_releaseTo frame h
  exact (hstraight.trans (straight_setFrameOffset frame hstraight.ran.ready)).continues
    (framed_releaseTo frame c).starts hadds

/-- The jump of a `continue`. -/
theorem continues_jumpBack (h : Ready c) {loop : LoopScope} (hmem : loop ∈ c.loopScopes)
    (hframe : c.currentFrameOffset = loop.frameOffset) (x : ℤ) :
    Continues total c (setFrameOffset x (c.withPiece (c.piece.emitJmp loop.continuePc))).2 := by
  obtain ⟨-, hwords⟩ := emitJmp_ran h loop.continuePc
  have hlength : (c.withPiece (c.piece.emitJmp loop.continuePc)).words.length =
      c.words.length + 2 := by
    rw [hwords, List.length_append]
    rfl
  refine ⟨Nat.le_trans (Nat.le_add_right _ 2) (Nat.le_of_eq hlength.symm), fun isOpen level hl => ?_⟩
  obtain ⟨hle, hlevel⟩ := (hl.loops loop hmem).continues
  have hfits := hl.fits.jumpTo hle (by rw [hlevel, hl.here, hframe]) x
  refine ⟨_, .update (by omega) _, hl.append hwords rfl rfl (.update (by omega) _) hfits ?_⟩
  refine (congrArg _ hlength).trans ?_
  rw [Function.update_self]
  rfl

/-- The jump of a `break`. -/
theorem continues_break (h : Ready c) {loop : LoopScope}
    (hlast : c.loopScopes.getLast? = some loop) (hframe : c.currentFrameOffset = loop.frameOffset)
    (x : ℤ) : Continues total c (setFrameOffset x (emitBreak loop c)).2 := by
  obtain ⟨hran, hwords, -⟩ := emitBreak_ran hlast h
  have hlength : (emitBreak loop c).words.length = c.words.length + 2 := by
    rw [hwords, List.length_append]
    rfl
  have hbreak : c.piece.emitJmpReloc.1 = c.words.length + 1 := (generateJmp_ran h).2.2
  have hold : c.loopScopes = c.loopScopes.dropLast ++ [loop] :=
    (List.dropLast_append_getLast? loop hlast).symm
  refine ⟨Nat.le_trans (Nat.le_add_right _ 2) (Nat.le_of_eq hlength.symm), fun isOpen level hl => ?_⟩
  have hagree : Agree c.words level (Function.update level (c.words.length + 2) x) :=
    .update (by omega) _
  have hsub : openBreaks c.loopScopes ⊆ openBreaks (emitBreak loop c).loopScopes := by
    rw [hold, openBreaks_append]
    change _ ⊆ openBreaks (c.loopScopes.dropLast ++ [_])
    rw [openBreaks_append, openBreaks_singleton, openBreaks_singleton]
    exact Set.union_subset_union_right _ fun r hr => List.mem_append_left _ hr
  have hopen : c.words.length + 1 ∈ openBreaks (emitBreak loop c).loopScopes :=
    ⟨_, List.mem_append_right _ (List.mem_singleton_self _), by simp [hbreak]⟩
  refine ⟨_, hagree, ?_, ?_, fun start hmem => ?_, fun loop' hmem => ?_⟩
  · change Fits total (emitBreak loop c).words _ _
    rw [hwords]
    exact hl.fits.openJump (Set.union_subset_union_right _ hsub) (.inr hopen) 0 x
  · refine (congrArg _ hlength).trans ?_
    rw [Function.update_self]
    rfl
  · obtain ⟨hle, hlevel⟩ := hl.starts start hmem
    exact ⟨Nat.le_trans hle hran.words.length_le, (hagree _ hle).trans hlevel⟩
  · rcases List.mem_append.mp hmem with hmem | hmem
    · exact (hl.loops loop' (hold ▸ List.mem_append_left _ hmem)).keep hran.words hagree
    · obtain rfl := List.mem_singleton.mp hmem
      have hkept := (hl.loops loop (hold ▸ List.mem_append_right _ (List.mem_singleton_self _))).keep
        hran.words hagree
      refine ⟨hkept.continues, fun r hr => ?_⟩
      rcases List.mem_append.mp hr with hr | hr
      · exact hkept.breaks r hr
      · obtain rfl := List.mem_singleton.mp hr
        rw [hbreak]
        refine ⟨c.words.length, 0, rfl, hwords ▸ getElem?_second _ _ _, ?_⟩
        rw [hagree _ (Nat.le_refl _), hl.here, hframe]

/-- The `ret` of a `return`. -/
theorem continues_ret (h : Ready c) (hframe : c.currentFrameOffset = 0) (x : ℤ) :
    Continues total c (setFrameOffset x (c.withPiece c.piece.emitRet)).2 := by
  obtain ⟨-, hwords⟩ := emitRet_ran h
  have hlength : (c.withPiece c.piece.emitRet).words.length = c.words.length + 1 := by
    rw [hwords, List.length_append]
    rfl
  refine ⟨Nat.le_trans (Nat.le_add_right _ 1) (Nat.le_of_eq hlength.symm), fun isOpen level hl => ?_⟩
  have hfits := hl.fits.ret (hl.here.trans hframe) x
  refine ⟨_, .update (by omega) _, hl.append hwords rfl rfl (.update (by omega) _) hfits ?_⟩
  refine (congrArg _ hlength).trans ?_
  rw [Function.update_self]
  rfl

/-! ### Loops -/

theorem Levelled.pushLoop (h : Levelled total isOpen c level) :
    Levelled total isOpen (pushLoop c).2 level := by
  have hbreaks : openBreaks (TinCompiler.pushLoop c).2.loopScopes = openBreaks c.loopScopes := by
    change openBreaks (c.loopScopes ++ [_]) = _
    rw [openBreaks_append, openBreaks_singleton]
    simp
  refine ⟨?_, h.here, h.starts, fun loop hmem => ?_⟩
  · rw [hbreaks]
    exact h.fits
  · rcases List.mem_append.mp hmem with hmem | hmem
    · exact h.loops loop hmem
    · obtain rfl := List.mem_singleton.mp hmem
      refine ⟨⟨Nat.le_of_eq c.length_words.symm, ?_⟩, fun r hr => absurd hr List.not_mem_nil⟩
      rw [← h.here, c.length_words]

/-- All breaks of the loop get their targets. -/
theorem fits_fixBreaks (rs : List ℕ) : ∀ {c : GeneratorContext},
    Fits total c.words ({r | r ∈ rs} ∪ isOpen) level →
    (∀ r ∈ rs, ∃ v, c.words[r]? = some (.arg v)) →
    (∀ r ∈ rs, ∀ i, r = i + 1 → level c.words.length = level i) →
    Fits total (fixBreaks rs c).words isOpen level := by
  induction rs with
  | nil =>
      intro c h _ _
      have hfits : Fits total c.words isOpen level := by simpa using h
      exact hfits
  | cons r rs ih =>
      intro c h hargs hlevels
      obtain ⟨v, harg⟩ := hargs r List.mem_cons_self
      have hwords : (TinCompiler.fixJump r c).2.words = fixWords c.words r := words_fixJumpHere c r
      have hset : KeepsWords c.words (TinCompiler.fixJump r c).2.words := hwords ▸ .set _ harg
      have hsplit : ({x | x ∈ r :: rs} ∪ isOpen : Set ℕ) = insert r ({x | x ∈ rs} ∪ isOpen) := by
        ext x
        simp [or_assoc]
      rw [hsplit] at h
      refine ih (c := (TinCompiler.fixJump r c).2) ?_ (fun r' hr' => ?_) fun r' hr' i hi => ?_
      · rw [hwords]
        exact h.fix harg (hlevels r List.mem_cons_self)
      · exact hset.arg (hargs r' (List.mem_cons_of_mem _ hr')).choose_spec
      · rw [length_fixJump]
        exact hlevels r' (List.mem_cons_of_mem _ hr') i hi

theorem Levelled.closeLoop {init : List LoopScope} {k r : ℕ} {frame v : ℤ} {rs : List ℕ}
    (hready : Ready c) (h : Levelled total (insert r isOpen) c level)
    (hloops : c.loopScopes = init ++ [⟨k, frame, rs⟩]) (harg : c.words[r]? = some (.arg v))
    (hframe : c.currentFrameOffset = frame) (hlevel : ∀ i, r = i + 1 → level i = frame) :
    ∃ level', Agree c.words level level' ∧
      Levelled total isOpen (closeLoop init.length r c).2 level' := by
  have hloop := h.loops ⟨k, frame, rs⟩ (hloops ▸ List.mem_append_right _ (List.mem_singleton_self _))
  have hargs : ∀ r ∈ rs, ∃ v, c.words[r]? = some (.arg v) := by
    intro r hr
    obtain ⟨_, v, -, harg, -⟩ := hloop.breaks r hr
    exact ⟨v, harg⟩
  obtain ⟨hran, hloops', hlength⟩ := closeLoop_ran hready hloops harg hargs
  have heq := closeLoop_eq_of_concat hloops r
  obtain ⟨hran₁, hwords₁⟩ := emitJmp_ran hready k
  have hlength₁ : (c.withPiece (c.piece.emitJmp k)).words.length = c.words.length + 2 := by
    rw [hwords₁, List.length_append]
    rfl
  have hagree : Agree c.words level (Function.update level (c.words.length + 2) frame) :=
    .update (by omega) _
  have hback : level k = level c.words.length := by
    rw [hloop.continues.2, h.here, hframe]
  have h₁ : Levelled total (insert r isOpen) (c.withPiece (c.piece.emitJmp k))
      (Function.update level (c.words.length + 2) frame) := by
    refine h.append hwords₁ rfl rfl hagree (h.fits.jumpTo hloop.continues.1 hback frame) ?_
    rw [hlength₁, Function.update_self]
    exact hframe.symm
  obtain ⟨v', harg'⟩ := hran₁.words.arg harg
  have hlt := (List.getElem?_eq_some_iff.mp harg).1
  have h₂ := h₁.fixJump harg' fun i hi => by
    rw [hagree i (by omega), hlevel i hi]
    exact hframe.symm
  have hran₂ : Ran (c.withPiece (c.piece.emitJmp k))
      (TinCompiler.fixJump r (c.withPiece (c.piece.emitJmp k))).2 := hran₁.ready.fixJumpHere harg'
  refine ⟨_, hagree, ?_, ?_, fun start hmem => ?_, fun loop hmem => ?_⟩
  · rw [hloops', heq]
    have hfits := h₂.fits
    have hopen : (isOpen ∪ openBreaks (TinCompiler.fixJump r
        (c.withPiece (c.piece.emitJmp k))).2.loopScopes : Set ℕ) =
          {r | r ∈ rs} ∪ (isOpen ∪ openBreaks init) := by
      change isOpen ∪ openBreaks c.loopScopes = _
      rw [hloops, openBreaks_append, openBreaks_singleton]
      ext x
      simp only [Set.mem_union, Set.mem_ofPred_eq]
      tauto
    rw [hopen] at hfits
    refine fits_fixBreaks rs hfits (fun r hr => ?_) fun r hr i hi => ?_
    · exact (hran₁.trans hran₂).words.arg (hargs r hr).choose_spec
    · obtain ⟨i', v, hi', harg, hsame⟩ := hloop.breaks r hr
      have hlt' := (List.getElem?_eq_some_iff.mp harg).1
      obtain rfl : i = i' := Nat.succ.inj (hi.symm.trans hi')
      rw [h₂.here, hagree i (by omega), hsame]
      exact hframe
  · rw [hlength, Function.update_self, heq]
    exact hframe.symm
  · have hstart : start ∈ c.starts := by
      rw [heq] at hmem
      exact hmem
    obtain ⟨hle, hsame⟩ := h.starts start hstart
    exact ⟨by omega, (hagree _ hle).trans hsame⟩
  · have hmem' : loop ∈ c.loopScopes := by
      rw [hloops'] at hmem
      exact hloops ▸ List.mem_append_left _ hmem
    exact (h.loops loop hmem').keep hran.words hagree

theorem continues_while (h : Ready c) (hcond : Straightly (pushLoop c).2 c₁)
    (hsame : Continues total (pushLoop c).2 c₁)
    (hframe : c₁.currentFrameOffset = c.currentFrameOffset) (hran : Ran (generateJz c₁).2 c₃)
    (hbody : Continues total (generateJz c₁).2 c₃)
    (hback : c₃.currentFrameOffset = c.currentFrameOffset) :
    Continues total c (TinCompiler.closeLoop (pushLoop c).1 (generateJz c₁).1 c₃).2 := by
  obtain ⟨hran₂, hwords₂, hr⟩ := generateJz_ran hcond.ran.ready
  obtain ⟨v, harg⟩ := exists_arg_of_jz hcond hran
  have hindex : (TinCompiler.pushLoop c).1 = c.loopScopes.length := rfl
  rw [hr, hindex]
  have hloops₂ : (generateJz c₁).2.loopScopes =
      c.loopScopes ++ [⟨c.piece.getPc, c.currentFrameOffset, []⟩] := hcond.loops
  obtain ⟨rs, hloops₃, hrs⟩ := hran.loops.concat hloops₂
  rw [List.nil_append] at hloops₃
  obtain ⟨-, -, hlength⟩ := closeLoop_ran hran.ready hloops₃ harg fun r hr => (hrs r hr).2
  have hle : c.words.length ≤ c₁.words.length := hsame.le
  have hle₂ := hran₂.words.length_le
  have hle₃ := hbody.le
  refine ⟨by omega, fun isOpen level hl => ?_⟩
  obtain ⟨level₁, hagree₁, h₁⟩ := hsame.level isOpen level hl.pushLoop
  have hagree₀ : Agree c.words level level₁ := hagree₁
  obtain ⟨level₃, hagree₃, h₃⟩ := hbody.level _ _ (h₁.jz hcond.ran.ready)
  have hagree : Agree c₁.words level₁ level₃ :=
    (Agree.update (by omega) _).trans hle₂ hagree₃
  obtain ⟨level₄, hagree₄, h₄⟩ := h₃.closeLoop hran.ready hloops₃ harg hback fun i hi => by
    obtain rfl := Nat.succ.inj hi
    rw [hagree _ (Nat.le_refl _), h₁.here, hframe]
  exact ⟨level₄, (hagree₀.trans hle hagree).trans (by omega) hagree₄, h₄⟩

end Contexts

end TinCompiler
