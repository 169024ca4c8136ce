import TinCompiler.Generator.Laid
import TinCompiler.Machine.Flow

/-!
# The code of a body as a graph

The machine goes from cell to cell (`flowOf`); a `jz` has a branch for each outcome of the
condition.  Visible are the cells in the recorded blocks: the code of expression statements,
declarations, conditions and returned values.  What lies between the blocks, the jumps and the
releases of the frame, is glue.
-/

namespace TinCompiler

open GeneratorM

def Cell.isInst : Cell → Bool
  | .inst _ => true
  | .imm _ => false

def isInstAt (cells : List Cell) (i : ℕ) : Bool := (cells[i]?.map Cell.isInst).getD false

/-- The instructions from `start` on, before `stop`. -/
def instructionsIn (cells : List Cell) (start stop : ℕ) : List ℕ :=
  (List.range' start (stop - start)).filter (isInstAt cells)

def Block.Contains (b : Block) (i : ℕ) : Prop := b.start ≤ i ∧ i < b.stop

instance (b : Block) (i : ℕ) : Decidable (b.Contains i) := inferInstanceAs (Decidable (_ ∧ _))

theorem contains_of_mem_instructionsIn {cells : List Cell} (b : Block) {i : ℕ}
    (h : i ∈ instructionsIn cells b.start b.stop) : b.Contains i := by
  have hmem := List.mem_range'_1.mp (List.mem_of_mem_filter h)
  exact ⟨hmem.1, by omega⟩

theorem visible_of_instructionsIn {cells : List Cell} {blocks : List Block}
    (b : {b : Block // b ∈ blocks}) (i : ℕ) (h : i ∈ instructionsIn cells b.1.start b.1.stop) :
    (blocks.any fun b => decide (b.Contains i)) = true :=
  List.any_eq_true.mpr ⟨b.1, b.2, decide_eq_true (contains_of_mem_instructionsIn b.1 h)⟩

/-- The cells with the recorded blocks. -/
def blockGraph (cells : List Cell) (blocks : List Block) :
    CodeGraph ℕ {b : Block // b ∈ blocks} where
  flow := flowOf cells
  code := fun b => instructionsIn cells b.1.start b.1.stop
  visible := fun i => blocks.any fun b => decide (b.Contains i)
  visible_of_code := visible_of_instructionsIn

theorem hidden_iff {cells : List Cell} {blocks : List Block} {i : ℕ} :
    (blockGraph cells blocks).visible i = false ↔ ∀ b ∈ blocks, ¬ b.Contains i := by
  simp [blockGraph]

/-! ## Words -/

section Words

variable {cells : List Cell} {blocks : List Block} {i j : ℕ}

theorem flow_of_single (h : (cells.map Cell.word)[i]? = some .single) :
    flowOf cells i = .go (i + 1) := by
  obtain ⟨cell, hcell, hword⟩ := cell_of_word h
  cases cell with
  | imm v => cases hword
  | inst inst =>
      cases inst <;> first
        | (simp [flowOf, hcell, Instruction.hasImmediate]; done)
        | cases hword

theorem flow_of_double (h : (cells.map Cell.word)[i]? = some .double) :
    flowOf cells i = .go (i + 2) := by
  obtain ⟨cell, hcell, hword⟩ := cell_of_word h
  cases cell with
  | imm v => cases hword
  | inst inst =>
      cases inst <;> first
        | (simp [flowOf, hcell, Instruction.hasImmediate]; done)
        | cases hword

theorem isInstAt_of_word {word : Word} (h : (cells.map Cell.word)[i]? = some word)
    (hword : ∀ v, word ≠ .arg v) : isInstAt cells i = true := by
  obtain ⟨cell, hcell, rfl⟩ := cell_of_word h
  rw [isInstAt, hcell]
  cases cell with
  | imm v => exact absurd rfl (hword v)
  | inst inst => rfl

/-- A `jmp` that goes to `j`. -/
theorem flow_of_jumps (h : (cells.map Cell.word)[i]? = some .jump)
    (hjumps : (pieceGraph cells blocks).Jumps i j) : flowOf cells i = .go j := by
  obtain ⟨cell, hcell, hword⟩ := cell_of_word h
  cases cell with
  | imm v => cases hword
  | inst inst =>
      obtain rfl : inst = .jmp := by cases inst <;> first | rfl | cases hword
      have hnext : jumpTarget cells i ∈ (pieceGraph cells blocks).next i := by
        show jumpTarget cells i ∈ flowNext cells i
        simp [flowNext, hcell]
      rw [hjumps.2.2] at hnext
      obtain rfl : jumpTarget cells i = j := hnext
      simp [flowOf, hcell]

theorem flow_of_jump {value : ℤ} (h : (cells.map Cell.word)[i]? = some .jump)
    (harg : (cells.map Cell.word)[i + 1]? = some (.arg value)) (hj : (j : ℤ) = i + 1 + value) :
    flowOf cells i = .go j :=
  flow_of_jumps h (jumps_of_jump h harg hj : (pieceGraph cells []).Jumps i j)

/-- A `jz` that falls through or goes to `j`. -/
theorem flow_of_branches (h : (cells.map Cell.word)[i]? = some .branch)
    (hbranches : (pieceGraph cells blocks).Branches i (i + 2) j) :
    flowOf cells i = .branch (i + 2) j := by
  obtain ⟨cell, hcell, hword⟩ := cell_of_word h
  cases cell with
  | imm v => cases hword
  | inst inst =>
      obtain ⟨reg, rfl⟩ : ∃ reg, inst = .jz reg := by
        cases inst <;> first | exact ⟨_, rfl⟩ | cases hword
      have hmem (k : ℕ) : k ∈ (pieceGraph cells blocks).next i ↔
          k = i + 2 ∨ k = jumpTarget cells i := by
        show k ∈ flowNext cells i ↔ _
        simp [flowNext, hcell]
      rw [hbranches.2.2] at hmem
      have htarget : jumpTarget cells i = j := by
        rcases (hmem j).mp (.inr rfl) with hj | hj
        · exact ((hmem _).mpr (.inr rfl)).elim (fun h => h.trans hj.symm) id
        · exact hj.symm
      simp [flowOf, hcell, htarget]

theorem flow_of_ret (h : (cells.map Cell.word)[i]? = some .ret) : flowOf cells i = .leave := by
  obtain ⟨cell, hcell, hword⟩ := cell_of_word h
  cases cell with
  | imm v => cases hword
  | inst inst =>
      obtain rfl : inst = .ret := by cases inst <;> first | rfl | cases hword
      simp [flowOf, hcell]

theorem instructionsIn_self (cells : List Cell) (s : ℕ) : instructionsIn cells s s = [] := by
  simp [instructionsIn]

theorem instructionsIn_single {n : ℕ} (h : (cells.map Cell.word)[i]? = some .single) :
    instructionsIn cells i (i + (n + 1)) = i :: instructionsIn cells (i + 1) (i + 1 + n) := by
  have hinst := isInstAt_of_word h (by simp)
  simp only [instructionsIn, Nat.add_sub_cancel_left, List.range'_succ]
  rw [List.filter_cons_of_pos hinst]

theorem instructionsIn_double {n : ℕ} {v : ℤ} (h : (cells.map Cell.word)[i]? = some .double)
    (hnext : (cells.map Cell.word)[i + 1]? = some (.arg v)) :
    instructionsIn cells i (i + (n + 2)) = i :: instructionsIn cells (i + 2) (i + 2 + n) := by
  have hinst := isInstAt_of_word h (by simp)
  have himm : isInstAt cells (i + 1) = false := by
    rw [isInstAt, imm_of_word hnext]
    rfl
  simp only [instructionsIn, Nat.add_sub_cancel_left, List.range'_succ]
  rw [List.filter_cons_of_pos hinst, List.filter_cons_of_neg (by rw [himm]; exact Bool.noConfusion)]

/-- Straight code is a path through all of its instructions. -/
theorem walk_of_straight {words : List Word} (hstraight : StraightWords words) : ∀ {s : ℕ},
    (∀ k word, words[k]? = some word → ∃ word', (cells.map Cell.word)[s + k]? = some word' ∧
      (word' = word ∨ ∃ v v', word = .arg v ∧ word' = .arg v')) →
    (blockGraph cells blocks).Straight s (instructionsIn cells s (s + words.length))
      (s + words.length) := by
  induction hstraight with
  | nil =>
      intro s _
      rw [List.length_nil, Nat.add_zero, instructionsIn_self]
      exact .nil s
  | @single words _ ih =>
      intro s hwords
      obtain ⟨word', hword', rfl | ⟨_, _, h, _⟩⟩ := hwords 0 .single rfl
      · rw [Nat.add_zero] at hword'
        rw [List.length_cons, instructionsIn_single hword']
        have hlen : s + (words.length + 1) = s + 1 + words.length := by omega
        rw [hlen]
        refine .go (flow_of_single hword') (ih fun k word hk => ?_)
        rw [Nat.add_right_comm]
        exact hwords (k + 1) word hk
      · cases h
  | @double words value _ ih =>
      intro s hwords
      obtain ⟨word', hword', rfl | ⟨_, _, h, _⟩⟩ := hwords 0 .double rfl
      · rw [Nat.add_zero] at hword'
        obtain ⟨v, hnext⟩ : ∃ v, (cells.map Cell.word)[s + 1]? = some (.arg v) := by
          obtain ⟨word', hword', rfl | ⟨_, v', _, rfl⟩⟩ := hwords 1 (.arg value) rfl
          · exact ⟨value, hword'⟩
          · exact ⟨v', hword'⟩
        rw [List.length_cons, List.length_cons, instructionsIn_double hword' hnext]
        have hlen : s + (words.length + 1 + 1) = s + 2 + words.length := by omega
        rw [hlen]
        refine .go (flow_of_double hword') (ih fun k word hk => ?_)
        rw [Nat.add_right_comm]
        exact hwords (k + 2) word hk
      · cases h

end Words

/-! ## Straight code -/

section Finished

variable {cells : List Cell} {blocks : List Block} {pending : Set ℕ} {breakPc : ℕ}
  {c c' : GeneratorContext}

/-- Straight code is a path of the finished piece. -/
theorem Straightly.walk (h : Straightly c c') (blocks : List Block)
    (hagrees : Agrees cells pending c'.words) :
    (blockGraph cells blocks).Straight c.words.length
      (instructionsIn cells c.words.length c'.words.length) c'.words.length := by
  obtain ⟨new, hnew, heq⟩ := h.straight
  have hlen : c'.words.length = c.words.length + new.length := by rw [heq, List.length_append]
  rw [hlen]
  refine walk_of_straight hnew fun k word hword => ?_
  have hword' : c'.words[c.words.length + k]? = some word := by
    rw [heq, List.getElem?_append_right (Nat.le_add_right _ _), Nat.add_sub_cancel_left, hword]
  rcases hagrees _ _ hword' with h | ⟨-, v, v', hv, h⟩
  · exact ⟨word, h, .inl rfl⟩
  · exact ⟨_, h, .inr ⟨v, v', hv, rfl⟩⟩

/-- The recorded blocks are in front of the end. -/
def Below (c : GeneratorContext) : Prop := ∀ b ∈ c.blocks, b.stop ≤ c.words.length

theorem Below.of_same (h : Below c) (hle : c.words.length ≤ c'.words.length)
    (hblocks : c'.blocks = c.blocks) : Below c' :=
  fun b hb => Nat.le_trans (h b (hblocks ▸ hb)) hle

/-- Between the blocks in front of it and those behind the code there is nothing to see. -/
theorem Finishes.hidden (hfin : Finishes cells blocks pending breakPc c') {i : ℕ}
    (hlow : ∀ b ∈ c'.blocks, b.stop ≤ i) (hhigh : i < c'.words.length) :
    (blockGraph cells blocks).visible i = false := by
  rw [hidden_iff]
  rintro b hb ⟨hstart, hstop⟩
  obtain ⟨later, rfl, hlater⟩ := hfin.blocks
  rcases List.mem_append.mp hb with hb | hb
  · exact absurd (hlow b hb) (by omega)
  · exact absurd (hlater b hb).1 (by omega)

theorem seen_eq_nil {G : CodeGraph ℕ {b : Block // b ∈ blocks}} {ps : List ℕ}
    (h : ∀ i ∈ ps, G.visible i = false) : G.seen ps = [] :=
  List.filter_eq_nil_iff.mpr fun i hi => by rw [h i hi]; exact Bool.noConfusion

/-- Straight code without a block is glue. -/
theorem Straightly.glue (h : Straightly c c') (hfin : Finishes cells blocks pending breakPc c')
    (hlow : ∀ b ∈ c'.blocks, b.stop ≤ c.words.length) :
    (blockGraph cells blocks).Glue c.words.length c'.words.length := by
  refine ⟨_, h.walk blocks hfin.agrees, seen_eq_nil fun i hi => ?_⟩
  have hmem := List.mem_range'_1.mp (List.mem_of_mem_filter hi)
  exact hfin.hidden (fun b hb => Nat.le_trans (hlow b hb) hmem.1) (by omega)

end Finished

end TinCompiler
