import TinCompiler.Machine.Growth

/-!
# The paths through a piece

Where control can go from each cell of a piece.  Conditions may come out either way, and a
call comes back behind itself.
-/

namespace TinCompiler

/-- Where the jump at `i` goes: its immediate counts from the cell of the immediate.  The pc is
compared as an unsigned number, so a negative one is behind the end, too. -/
def jumpTarget (cells : List Cell) (i : ℕ) : ℕ :=
  match cells[i + 1]? with
  | some (.imm v) => if (i + 1 + v : ℤ) < 0 then cells.length else (i + 1 + v : ℤ).toNat
  | _ => cells.length

/-- Where control goes from the cell at `i`; nowhere from a `ret`, an immediate or behind the
end. -/
def flowNext (cells : List Cell) (i : ℕ) : List ℕ :=
  match cells[i]? with
  | some (.inst .ret) => []
  | some (.inst .jmp) => [jumpTarget cells i]
  | some (.inst (.jz _)) => [i + 2, jumpTarget cells i]
  | some (.inst inst) => [if inst.hasImmediate then i + 2 else i + 1]
  | _ => []

/-- Control can come from the start of the piece to `pc`. -/
def Reaches (cells : List Cell) (pc : ℕ) : Prop :=
  Relation.ReflTransGen (fun i j => j ∈ flowNext cells i) 0 pc

/-- Only from a `ret` an instruction does not go on. -/
theorem ret_of_flowNext {cells : List Cell} {i : ℕ} {inst : Instruction}
    (h : cells[i]? = some (.inst inst)) (hnext : flowNext cells i = []) : inst = .ret := by
  cases inst <;> first | rfl | simp [flowNext, h] at hnext

/-- The graph of a piece; what backs a return is up to the caller. -/
def flowGraph (cells : List Cell) (result : List ℕ → ℕ → Prop) : FlowGraph ℕ where
  next := fun i => {j | j ∈ flowNext cells i}
  code := {i | ∃ inst, cells[i]? = some (.inst inst)}
  returns := {i | cells[i]? = some (.inst .ret)}
  result := result

section Words

variable {cells : List Cell} {result : List ℕ → ℕ → Prop} {i j : ℕ} {value : ℤ}

theorem lt_of_code (h : i ∈ (flowGraph cells result).code) : i < cells.length := by
  obtain ⟨inst, hinst⟩ := h
  exact (List.getElem?_eq_some_iff.mp hinst).1

/-- From what is no instruction control does not go on. -/
theorem step_iff : (flowGraph cells result).Step i j ↔ j ∈ flowNext cells i := by
  refine ⟨fun h => h.2, fun h => ⟨?_, h⟩⟩
  cases hcell : cells[i]? with
  | none => simp [flowNext, hcell] at h
  | some cell =>
      cases cell with
      | imm v => simp [flowNext, hcell] at h
      | inst inst => exact ⟨inst, hcell⟩

theorem reaches_iff (result : List ℕ → ℕ → Prop) : Reaches cells j ↔
    Relation.ReflTransGen (flowGraph cells result).Step 0 j := by
  have hstep : (fun i j => j ∈ flowNext cells i) = (flowGraph cells result).Step := by
    ext i j
    exact step_iff.symm
  rw [Reaches, hstep]

theorem cell_of_word {word : Word} (h : (cells.map Cell.word)[i]? = some word) :
    ∃ cell, cells[i]? = some cell ∧ cell.word = word := by
  rw [List.getElem?_map] at h
  exact Option.map_eq_some_iff.mp h

theorem imm_of_word (h : (cells.map Cell.word)[i]? = some (.arg value)) :
    cells[i]? = some (.imm value) := by
  obtain ⟨cell, hcell, hword⟩ := cell_of_word h
  cases cell with
  | imm v => exact hcell.trans (by rw [Word.arg.inj hword])
  | inst inst => cases inst <;> cases hword

theorem word_of_imm (h : cells[i]? = some (.imm value)) :
    (cells.map Cell.word)[i]? = some (.arg value) := by
  rw [List.getElem?_map, h]
  rfl

/-- A jump to `j`. -/
theorem jumpTarget_eq (harg : (cells.map Cell.word)[i + 1]? = some (.arg value))
    (hj : (j : ℤ) = i + 1 + value) : jumpTarget cells i = j := by
  unfold jumpTarget
  rw [imm_of_word harg]
  dsimp only
  rw [← hj, if_neg (by omega), Int.toNat_natCast]

theorem jumps_of_single (h : (cells.map Cell.word)[i]? = some .single) :
    (flowGraph cells result).Jumps i (i + 1) := by
  obtain ⟨cell, hcell, hword⟩ := cell_of_word h
  cases cell with
  | imm v => cases hword
  | inst inst =>
      refine ⟨⟨inst, hcell⟩, fun hret => ?_, ?_⟩
      · obtain rfl := Cell.inst.inj (Option.some.inj (hcell.symm.trans hret))
        cases hword
      · change {j | j ∈ flowNext cells i} = _
        cases inst <;> first | (simp [flowNext, hcell, Instruction.hasImmediate]; done) | cases hword

theorem jumps_of_double (h : (cells.map Cell.word)[i]? = some .double) :
    (flowGraph cells result).Jumps i (i + 2) := by
  obtain ⟨cell, hcell, hword⟩ := cell_of_word h
  cases cell with
  | imm v => cases hword
  | inst inst =>
      refine ⟨⟨inst, hcell⟩, fun hret => ?_, ?_⟩
      · obtain rfl := Cell.inst.inj (Option.some.inj (hcell.symm.trans hret))
        cases hword
      · change {j | j ∈ flowNext cells i} = _
        cases inst <;> first | (simp [flowNext, hcell, Instruction.hasImmediate]; done) | cases hword

theorem jumps_of_jump (h : (cells.map Cell.word)[i]? = some .jump)
    (harg : (cells.map Cell.word)[i + 1]? = some (.arg value)) (hj : (j : ℤ) = i + 1 + value) :
    (flowGraph cells result).Jumps i j := by
  obtain ⟨cell, hcell, hword⟩ := cell_of_word h
  cases cell with
  | imm v => cases hword
  | inst inst =>
      obtain rfl : inst = .jmp := by cases inst <;> first | rfl | cases hword
      refine ⟨⟨_, hcell⟩, fun hret => ?_, ?_⟩
      · cases hcell.symm.trans hret
      · change {k | k ∈ flowNext cells i} = _
        rw [← jumpTarget_eq harg hj]
        simp [flowNext, hcell]

theorem branches_of_branch (h : (cells.map Cell.word)[i]? = some .branch)
    (harg : (cells.map Cell.word)[i + 1]? = some (.arg value)) (hj : (j : ℤ) = i + 1 + value) :
    (flowGraph cells result).Branches i (i + 2) j := by
  obtain ⟨cell, hcell, hword⟩ := cell_of_word h
  cases cell with
  | imm v => cases hword
  | inst inst =>
      obtain ⟨reg, rfl⟩ : ∃ reg, inst = .jz reg := by
        cases inst <;> first | exact ⟨_, rfl⟩ | cases hword
      refine ⟨⟨_, hcell⟩, fun hret => ?_, ?_⟩
      · cases hcell.symm.trans hret
      · change {k | k ∈ flowNext cells i} = _
        rw [← jumpTarget_eq harg hj]
        ext k
        simp [flowNext, hcell]

theorem returns_of_ret (h : (cells.map Cell.word)[i]? = some .ret) :
    i ∈ (flowGraph cells result).code ∧ i ∈ (flowGraph cells result).returns ∧
      (flowGraph cells result).next i = ∅ := by
  obtain ⟨cell, hcell, hword⟩ := cell_of_word h
  cases cell with
  | imm v => cases hword
  | inst inst =>
      obtain rfl : inst = .ret := by cases inst <;> first | rfl | cases hword
      exact ⟨⟨_, hcell⟩, hcell, by simp [flowGraph, flowNext, hcell]⟩

/-- Straight code is a segment of the graph, through all of its instructions. -/
theorem segment_of_straight {words : List Word} (hstraight : StraightWords words) :
    ∀ {s : ℕ}, (∀ k word, words[k]? = some word → ∃ word', (cells.map Cell.word)[s + k]? = some word' ∧
        (word' = word ∨ ∃ v v', word = .arg v ∧ word' = .arg v')) →
      ∃ l, (flowGraph cells result).Segment s l (s + words.length) ∧
        ∀ x, x ∈ l ↔ (s ≤ x ∧ x < s + words.length) ∧ ∃ inst, cells[x]? = some (.inst inst) := by
  induction hstraight with
  | nil => exact fun {s} _ => ⟨[], .nil _, fun x => by simp only [List.not_mem_nil, List.length_nil, false_iff]; omega⟩
  | @single words _ ih =>
      intro s hwords
      obtain ⟨word', hword', rfl | ⟨_, _, h, _⟩⟩ := hwords 0 .single rfl
      · obtain ⟨l, hseg, hmem⟩ := ih (s := s + 1) fun k word hk => by
          rw [Nat.add_right_comm]
          exact hwords (k + 1) word hk
        have hjumps : (flowGraph cells result).Jumps s (s + 1) := jumps_of_single hword'
        refine ⟨s :: l, ?_, fun x => ?_⟩
        · rw [List.length_cons, Nat.add_comm words.length, ← Nat.add_assoc]
          exact .cons hjumps hseg
        · rw [List.mem_cons, hmem x, List.length_cons]
          constructor
          · rintro (rfl | ⟨hx, hinst⟩)
            · exact ⟨by omega, hjumps.1⟩
            · exact ⟨by omega, hinst⟩
          · rintro ⟨hx, hinst⟩
            rcases Nat.eq_or_lt_of_le hx.1 with heq | hlt
            · exact .inl heq.symm
            · exact .inr ⟨by omega, hinst⟩
      · cases h
  | @double words value _ ih =>
      intro s hwords
      obtain ⟨word', hword', rfl | ⟨_, _, h, _⟩⟩ := hwords 0 .double rfl
      · obtain ⟨l, hseg, hmem⟩ := ih (s := s + 2) fun k word hk => by
          rw [Nat.add_right_comm]
          exact hwords (k + 2) word hk
        have hjumps : (flowGraph cells result).Jumps s (s + 2) := jumps_of_double hword'
        -- the second cell is an immediate, so it is no instruction
        have himm : ∀ inst, cells[s + 1]? ≠ some (.inst inst) := by
          intro inst hinst
          obtain ⟨word', hword', rfl | ⟨_, v', _, rfl⟩⟩ := hwords 1 (.arg value) rfl
          · cases hinst.symm.trans (imm_of_word hword')
          · cases hinst.symm.trans (imm_of_word hword')
        refine ⟨s :: l, ?_, fun x => ?_⟩
        · have hlen : s + (Word.double :: .arg value :: words).length = s + 2 + words.length := by
            simp only [List.length_cons]
            omega
          rw [hlen]
          exact .cons hjumps hseg
        · rw [List.mem_cons, hmem x, List.length_cons, List.length_cons]
          constructor
          · rintro (rfl | ⟨hx, hinst⟩)
            · exact ⟨by omega, hjumps.1⟩
            · exact ⟨by omega, hinst⟩
          · rintro ⟨hx, inst, hinst⟩
            rcases Nat.eq_or_lt_of_le hx.1 with heq | hlt
            · exact .inl heq.symm
            · rcases Nat.eq_or_lt_of_le (Nat.succ_le_of_lt hlt) with heq | hlt
              · rw [← heq] at hinst
                exact absurd hinst (himm inst)
              · exact .inr ⟨by omega, inst, hinst⟩
      · cases h

end Words

end TinCompiler
