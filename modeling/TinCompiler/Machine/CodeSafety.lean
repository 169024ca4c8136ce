import TinCompiler.Machine.Flow
import TinCompiler.Machine.Nesting

/-!
# Runs stay in the code

A machine whose pieces are closed, that is, whose control flow comes to whole instructions and
whose calls name a piece or a native, executes nothing but their code, through calls and
returns of any depth, as long as the records of the calls are left alone
(`inCode_of_reachable`).  With the program counter the distance of the stack pointer from the
base pointer is followed: the pieces determine it, too.
-/

namespace TinCompiler

/-- The registers that hold values. -/
def Register.isWork : Register → Bool
  | a | b | c | d => true
  | _ => false

/-- What is written is a register for values, or the stack pointer that is moved; a condition is
read from a register for values. -/
def Instruction.Tame : Instruction → Prop
  | cast op0 _ | movRR op0 _ | movRM op0 _ _ | movRMDisp op0 _ _ | pop op0 | arithmetic _ op0 _ _
  | and op0 _ | or op0 _ | not op0 _ | compare _ op0 _ _ | li op0 | dataptr op0 | jz op0 =>
      op0.isWork
  | incr op0 _ _ => op0.isWork ∨ op0 = .sp
  | halt => False
  | nop | movMR .. | movMRDisp .. | push _ | memzero .. | ret | jmp | call => True

def TameCells (cells : List Cell) : Prop := ∀ inst, Cell.inst inst ∈ cells → inst.Tame

/-- Positions with the distance from the base pointer to the stack pointer there; a call comes
back with the stack pointer it was made with. -/
def ReachStep (cells : List Cell) (p q : ℕ × ℤ) : Prop :=
  ∃ inst, cells[p.1]? = some (.inst inst) ∧ q.1 ∈ flowNext cells p.1 ∧ q.2 = p.2 + inst.spChange

/-- Control can come from the start of a function to the position, at this level. -/
def ReachesAt (cells : List Cell) (i : ℕ) (level : ℤ) : Prop :=
  Relation.ReflTransGen (ReachStep cells) (0, 0) (i, level)

theorem ReachesAt.reaches {cells : List Cell} {i : ℕ} {level : ℤ} (h : ReachesAt cells i level) :
    Reaches cells i :=
  Relation.ReflTransGen.lift Prod.fst (fun _ _ ⟨_, _, hnext, _⟩ => hnext) _ _ h

theorem ReachesAt.next {cells : List Cell} {i j : ℕ} {level : ℤ} {inst : Instruction}
    (h : ReachesAt cells i level) (hcell : cells[i]? = some (.inst inst))
    (hnext : j ∈ flowNext cells i) : ReachesAt cells j (level + inst.spChange) :=
  Relation.ReflTransGen.tail h ⟨inst, hcell, hnext, rfl⟩

/-- The code of a function among so many pieces. -/
structure ClosedCells (pieces : ℕ) (cells : List Cell) : Prop where
  tame : TameCells cells
  /-- Control comes to the end, or to an instruction with the immediate that it reads. -/
  reaches : ∀ i, Reaches cells i → i = cells.length ∨ ∃ inst, cells[i]? = some (.inst inst) ∧
    (inst.hasImmediate → ∃ v, cells[i + 1]? = some (.imm v))
  /-- A call names a native or a piece. -/
  calls : ∀ (i : ℕ) (v : ℤ), cells[i]? = some (.inst .call) → cells[i + 1]? = some (.imm v) →
    v < 0 ∨ (0 < v ∧ v ≤ pieces)

namespace Instruction

variable {inst : Instruction}

theorem Tame.sparesSp (h : inst.Tame) : inst.SparesSp := by
  cases inst with
  | halt => exact h.elim
  | nop | movMR | movMRDisp | push | memzero | ret | jmp | call | jz | incr => trivial
  | _ =>
      rintro rfl
      cases h

theorem Tame.cases (h : inst.Tame) : inst.Sequential ∨ inst = .call ∨ inst = .ret ∨ inst = .jmp ∨
    ∃ reg, reg ≠ .pc ∧ inst = .jz reg := by
  cases inst with
  | halt => exact h.elim
  | nop | movMR | movMRDisp | push | memzero => exact .inl trivial
  | ret | jmp | call => simp
  | jz reg =>
      refine .inr (.inr (.inr (.inr ⟨reg, ?_, rfl⟩)))
      rintro rfl
      cases h
  | incr reg _ _ =>
      refine .inl ?_
      rintro rfl
      rcases h with h | h <;> cases h
  | _ =>
      refine .inl ?_
      rintro rfl
      cases h

end Instruction

namespace VirtualMachine

variable (vm : VirtualMachine)

/-- The pieces fit together. -/
def Closed : Prop := ∀ cells ∈ vm.pieces, ClosedCells vm.pieces.length cells

/-- Cells, pieces and immediates are of type `int`. -/
structure FitsInt : Prop extends vm.IntSized where
  imms : ∀ cells ∈ vm.pieces, ∀ v, Cell.imm v ∈ cells → -2 ^ 31 ≤ v ∧ v < 2 ^ 31

/-- The natives read and write the memory only. -/
def NativesKeep : Prop :=
  ∀ imm m, (vm.host.native imm m).registers = m.registers ∧
    (vm.host.native imm m).pieceIndex = m.pieceIndex

/-- The frame is at a position of its piece that control can come to, with the stack pointer at
the level of this position. -/
def InCode (frame : Frame) : Prop :=
  ∃ cells i level, vm.getPiece frame.pieceIndex = some cells ∧ ReachesAt cells i level ∧
    (i < cells.length → frame.pc.toNat = i) ∧ (cells.length ≤ i → cells.length ≤ frame.pc.toNat) ∧
    frame.sp = frame.bp + BitVec.ofInt 64 level

variable {vm} {m m' next : Machine} {imm : ℤ} {inst : Instruction} {cells : List Cell} {i : ℕ}

/-! ## Instructions -/

theorem fetch_of_cell (hpiece : vm.getPiece m.pieceIndex = some cells)
    (hpc : (m.registers .pc).toNat = i) (hcell : cells[i]? = some (.inst inst))
    (himm : inst.hasImmediate → ∃ v, cells[i + 1]? = some (.imm v)) (hlt : i < 2 ^ 31) :
    ∃ imm next, vm.fetch m = some (inst, imm, next) ∧
      (inst.hasImmediate → cells[i + 1]? = some (.imm imm)) ∧
      (next.registers .pc).toNat = (if inst.hasImmediate then i + 2 else i + 1) ∧
      next.pieceIndex = m.pieceIndex := by
  have hsucc : ∀ {pc : BitVec 64}, pc.toNat < 2 ^ 32 → (pc + 1).toNat = pc.toNat + 1 :=
    fun hlt => toNat_add_of_lt (by change _ + 1 < _; omega)
  have hfirst : (m.registers .pc + 1).toNat = i + 1 := by rw [hsucc (by omega), hpc]
  unfold fetch
  rw [hpiece, hpc]
  dsimp only [Option.bind_eq_bind, Option.bind_some]
  rw [hcell]
  dsimp only
  by_cases himm' : inst.hasImmediate
  · obtain ⟨v, hv⟩ := himm himm'
    rw [if_pos himm', if_pos himm', hv]
    refine ⟨v, _, rfl, fun _ => rfl, ?_, rfl⟩
    rw [Machine.set_registers_self, Machine.set_registers_self, hsucc (by omega), hfirst]
  · rw [if_neg himm', if_neg himm']
    exact ⟨0, _, rfl, fun h => absurd h himm', by rw [Machine.set_registers_self, hfirst], rfl⟩

/-- Tame instructions leave the base pointer to calls and returns. -/
theorem execute_bp (hnatives : vm.NativesKeep) (htame : inst.Tame) (hframing : ¬ Framing inst imm)
    (h : vm.execute m imm inst = .ok m') : m'.registers .bp = m.registers .bp := by
  have hset : ∀ {reg : Register} (m : Machine) (value : BitVec 64), reg.isWork ∨ reg = .sp →
      (m.set reg value).registers .bp = m.registers .bp := by
    intro reg m value hreg
    refine Machine.set_registers_of_ne m value ?_
    rintro rfl
    rcases hreg with h | h <;> cases h
  cases inst with
  | halt => exact htame.elim
  | nop =>
      cases h
      rfl
  | cast op0 type => cases type <;> (cases h; exact hset m _ (.inl htame))
  | movRR op0 op1 | and op0 op1 | or op0 op1 | not op0 op1 | compare op op0 op1 control | li op0
  | dataptr op0 =>
      cases h
      exact hset m _ (.inl htame)
  | movMR op0 op1 size | movMRDisp op0 op1 size =>
      simp only [execute, movMR] at h
      split at h
      · cases h
        split <;> rfl
      · cases h
  | movRM op0 op1 size | movRMDisp op0 op1 size =>
      simp only [execute, movRM] at h
      split at h
      · cases h
        exact hset m _ (.inl htame)
      · cases h
  | push op0 =>
      dsimp only [execute, bind, Except.bind] at h
      split at h
      · cases h
      · next hcheck =>
          cases h
          rw [checkStack_eq_ok hcheck]
          exact hset m (m.registers .sp - 8) (.inr rfl)
  | pop op0 =>
      rw [checkStack_eq_ok h]
      exact (hset _ _ (.inr rfl)).trans (hset m _ (.inl htame))
  | incr op0 op1 op2 =>
      simp only [execute] at h
      split at h
      · rw [checkStack_eq_ok h]
        exact hset m _ htame
      · cases h
        exact hset m _ htame
  | arithmetic op op0 op1 isFloat =>
      cases isFloat with
      | true =>
          cases h
          exact hset m _ (.inl htame)
      | false =>
          simp only [execute] at h
          split at h
          · cases h
          · cases h
            exact hset m _ (.inl htame)
  | memzero op0 op1 =>
      simp only [execute] at h
      split at h
      · cases h
        rfl
      · cases h
  | jmp =>
      cases h
      exact Machine.set_registers_of_ne m _ (by decide)
  | jz op0 =>
      simp only [execute] at h
      cases h
      split
      · exact Machine.set_registers_of_ne m _ (by decide)
      · rfl
  | ret => exact absurd (.inr rfl) hframing
  | call =>
      have hneg : imm < 0 := by
        by_contra hnot
        exact hframing (.inl ⟨rfl, Int.not_lt.mp hnot⟩)
      simp only [execute, if_pos hneg] at h
      cases h
      rw [(hnatives imm m).1]

/-- How an instruction can end the run: only a return compares the two pointers. -/
def EndsWith (m : Machine) (inst : Instruction) : Stop → Prop
  | .accessViolation | .stackOverflow | .divisionTrap => True
  | .finished => inst = .ret
  | .frameMismatch => inst = .ret ∧ m.registers .bp ≠ m.registers .sp
  | .pcOutOfBounds | .notCode => False

theorem execute_error {stop : Stop} (h : vm.execute m imm inst = .error stop) :
    EndsWith m inst stop := by
  have hstack : ∀ {m' : Machine}, vm.checkStack m' = .error stop → EndsWith m inst stop := by
    intro m' h
    rw [eq_stackOverflow h]
    trivial
  cases inst with
  | halt | nop | movRR | and | or | not | compare | li | dataptr | jmp | jz => cases h
  | cast op0 type => cases type <;> cases h
  | movMR | movMRDisp =>
      simp only [execute, movMR] at h
      split at h <;> cases h
      trivial
  | movRM | movRMDisp =>
      simp only [execute, movRM] at h
      split at h <;> cases h
      trivial
  | push op0 =>
      dsimp only [execute, bind, Except.bind] at h
      split at h
      · next hcheck =>
          cases h
          exact hstack hcheck
      · cases h
  | pop op0 => exact hstack h
  | incr op0 op1 op2 =>
      simp only [execute] at h
      split at h
      · exact hstack h
      · cases h
  | ret =>
      simp only [execute, ret] at h
      split at h
      · cases h
        rfl
      · split at h
        · next hne =>
            cases h
            exact ⟨rfl, hne⟩
        · dsimp only [bind, Except.bind] at h
          split at h
          · next hcheck =>
              cases h
              exact hstack hcheck
          · split at h
            · next hcheck =>
                cases h
                exact hstack hcheck
            · exact hstack h
  | call =>
      simp only [execute] at h
      split at h
      · cases h
      · dsimp only [call, bind, Except.bind] at h
        split at h
        · next hcheck =>
            cases h
            exact hstack hcheck
        · split at h
          · next hcheck =>
              cases h
              exact hstack hcheck
          · split at h
            · next hcheck =>
                cases h
                exact hstack hcheck
            · cases h
  | memzero op0 op1 =>
      simp only [execute] at h
      split at h <;> cases h
      trivial
  | arithmetic op op0 op1 isFloat =>
      cases isFloat with
      | true => cases h
      | false =>
          simp only [execute] at h
          split at h <;> cases h
          trivial

/-! ## Rounds -/

/-- The machine is in front of an instruction of the code. -/
structure Fetched (vm : VirtualMachine) (m : Machine) (cells : List Cell) (i : ℕ) (level : ℤ)
    (inst : Instruction) (imm : ℤ) (next : Machine) : Prop where
  piece : vm.getPiece m.pieceIndex = some cells
  here : (m.registers .pc).toNat = i
  reaches : ReachesAt cells i level
  cell : cells[i]? = some (.inst inst)
  immediate : inst.hasImmediate → cells[i + 1]? = some (.imm imm)
  fetch : vm.fetch m = some (inst, imm, next)
  pc : (next.registers .pc).toNat = if inst.hasImmediate then i + 2 else i + 1
  nextPiece : next.pieceIndex = m.pieceIndex
  sp : m.registers .sp = m.registers .bp + BitVec.ofInt 64 level

/-- The program counter is at the position, or they are both behind the end. -/
def PcAt (cells : List Cell) (j : ℕ) (pc : BitVec 64) : Prop :=
  (j < cells.length → pc.toNat = j) ∧ (cells.length ≤ j → cells.length ≤ pc.toNat)

/-- The answer of the condition that the instruction tests, if it is a `jz`. -/
def asked (m : Machine) : Instruction → List Bool
  | .jz reg => [decide (m.registers reg ≠ 0)]
  | _ => []

theorem mem_of_getPiece {index : ℤ} (h : vm.getPiece index = some cells) : cells ∈ vm.pieces := by
  unfold getPiece at h
  split at h
  · cases h
  · exact List.mem_of_getElem? h

/-- In the code the machine is in front of an instruction, or behind the end of the piece. -/
theorem InCode.fetched (hclosed : vm.Closed) (hsized : vm.FitsInt)
    (h : vm.InCode (.ofMachine m)) :
    (∃ cells i level inst imm next, Fetched vm m cells i level inst imm next) ∨
      (∃ cells, vm.getPiece m.pieceIndex = some cells ∧ Reaches cells cells.length ∧
        vm.step m = .error .pcOutOfBounds) := by
  obtain ⟨cells, i, level, hpiece, hreaches, hlt, hge, hsp⟩ := h
  have hmem := mem_of_getPiece hpiece
  rcases (hclosed cells hmem).reaches i hreaches.reaches with rfl | ⟨inst, hcell, himm⟩
  · refine .inr ⟨cells, hpiece, hreaches.reaches, ?_⟩
    have hnone : cells[(m.registers .pc).toNat]? = none := List.getElem?_eq_none (hge (Nat.le_refl _))
    have hpiece' : vm.getPiece m.pieceIndex = some cells := hpiece
    unfold step
    rw [hpiece']
    dsimp only
    rw [hnone]
  · have hi := (List.getElem?_eq_some_iff.mp hcell).1
    have hlength := hsized.cells cells hmem
    obtain ⟨imm, next, hfetch, himm', hpc, hnext⟩ :=
      fetch_of_cell hpiece (hlt hi) hcell himm (by omega)
    exact .inl ⟨cells, i, level, inst, imm, next, hpiece, hlt hi, hreaches, hcell, himm', hfetch, hpc,
      hnext, hsp⟩

namespace Fetched

variable {level : ℤ} {frame : Frame} {j : ℕ} {bs : List Bool}

/-- A frame behind the instruction. -/
theorem inCode (h : Fetched vm m cells i level inst imm next)
    (hwalk : (cellGraph cells).Walk i [i] bs j) (hpiece : frame.pieceIndex = m.pieceIndex)
    (hpc : PcAt cells j frame.pc)
    (hsp : frame.sp = frame.bp + BitVec.ofInt 64 (level + inst.spChange)) : vm.InCode frame := by
  have hreaches : ReachesAt cells j (level + inst.spChange) := by
    cases hwalk with
    | go hflow hwalk =>
        cases hwalk
        exact h.reaches.next h.cell (mem_flowNext_of_go hflow)
    | branch hflow hwalk =>
        cases hwalk
        exact h.reaches.next h.cell (mem_flowNext_of_branch hflow _)
  exact ⟨cells, j, _, hpiece ▸ h.piece, hreaches, hpc.1, hpc.2, hsp⟩

/-- The instruction does not jump. -/
theorem pcAt_behind (h : Fetched vm m cells i level inst imm next) :
    PcAt cells (if inst.hasImmediate then i + 2 else i + 1) (next.registers .pc) :=
  ⟨fun _ => h.pc, fun hle => h.pc ▸ hle⟩

theorem toNat_jump {pc : BitVec 64} {v : ℤ} (hpc : pc.toNat = i + 2) (hi : i < 2 ^ 31)
    (hv : -2 ^ 31 ≤ v ∧ v < 2 ^ 31) : ((pc + BitVec.ofInt 64 (v - 1)).toNat : ℤ) =
      if (i + 1 + v : ℤ) < 0 then 2 ^ 64 + (i + 1 + v) else i + 1 + v := by
  have hofInt : ((BitVec.ofInt 64 (v - 1)).toNat : ℤ) = (v - 1) % 2 ^ 64 := by
    rw [BitVec.toNat_ofInt]
    omega
  rw [BitVec.toNat_add, hpc]
  split <;> omega

/-- The instruction jumps; an `int` of the immediate does not get behind the negative numbers. -/
theorem pcAt_jump (h : Fetched vm m cells i level inst imm next) (hsized : vm.FitsInt)
    (himm : inst.hasImmediate = true) :
    PcAt cells (jumpTarget cells i) (next.registers .pc + BitVec.ofInt 64 (imm - 1)) := by
  have hmem := mem_of_getPiece h.piece
  have hlength := hsized.cells cells hmem
  have hi := (List.getElem?_eq_some_iff.mp h.cell).1
  have hcell := h.immediate himm
  have hbound := hsized.imms cells hmem imm (List.mem_of_getElem? hcell)
  have htoNat := toNat_jump (h.pc.trans (if_pos himm)) (by omega) hbound
  have htarget : jumpTarget cells i =
      if (i + 1 + imm : ℤ) < 0 then cells.length else (i + 1 + imm : ℤ).toNat := by
    rw [jumpTarget, hcell]
  by_cases hneg : (i + 1 + imm : ℤ) < 0
  · rw [if_pos hneg] at htarget htoNat
    exact ⟨fun hlt => by omega, fun _ => by omega⟩
  · rw [if_neg hneg] at htarget htoNat
    exact ⟨fun _ => by omega, fun hge => by omega⟩

end Fetched

section Round

variable {level : ℤ} (h : Fetched vm m cells i level inst imm next) (htame : inst.Tame)
  (hsized : vm.FitsInt) (hnatives : vm.NativesKeep) (hframing : ¬ Framing inst imm)
  (hrun : vm.execute next imm inst = .ok m')

include h htame hsized hnatives hframing hrun

/-- Where a round goes, if it neither calls a piece nor returns. -/
theorem Fetched.goes : m'.pieceIndex = m.pieceIndex ∧
    ∃ j, (cellGraph cells).Walk i [i] (asked next inst) j ∧ PcAt cells j (m'.registers .pc) := by
  have hgo : ∀ {j : ℕ}, flowOf cells i = .go j → (cellGraph cells).Walk i [i] [] j :=
    fun hflow => .go hflow (.nil _)
  rcases htame.cases with hseq | rfl | rfl | rfl | ⟨reg, hreg, rfl⟩
  · obtain ⟨hpc, hpiece⟩ := execute_sequential hseq hrun
    have hasked : asked next inst = [] := by
      cases inst <;> first | rfl | exact hseq.elim
    have hflow : flowOf cells i = .go (if inst.hasImmediate then i + 2 else i + 1) := by
      cases inst <;> first | exact hseq.elim | simp [flowOf, h.cell]
    exact ⟨hpiece.trans h.nextPiece, _, hasked ▸ hgo hflow, hpc ▸ h.pcAt_behind⟩
  · -- a native
    have hneg : imm < 0 := by
      by_contra hnot
      exact hframing (.inl ⟨rfl, Int.not_lt.mp hnot⟩)
    simp only [execute, if_pos hneg] at hrun
    cases hrun
    obtain ⟨hregisters, hpiece⟩ := hnatives imm next
    refine ⟨hpiece.trans h.nextPiece, _, hgo (by simp [flowOf, h.cell]; rfl), ?_⟩
    rw [hregisters]
    exact h.pcAt_behind
  · exact absurd (.inr rfl) hframing
  · cases hrun
    refine ⟨h.nextPiece, _, hgo (by simp [flowOf, h.cell]; rfl), ?_⟩
    rw [Machine.set_registers_self]
    exact h.pcAt_jump hsized rfl
  · have hflow : flowOf cells i = .branch (i + 2) (jumpTarget cells i) := by simp [flowOf, h.cell]
    have hwalk : (cellGraph cells).Walk i [i] (asked next (.jz reg))
        (if decide (next.registers reg ≠ 0) then i + 2 else jumpTarget cells i) :=
      .branch hflow (.nil _)
    simp only [execute] at hrun
    by_cases hzero : next.registers reg = 0
    · rw [if_pos hzero] at hrun
      cases hrun
      refine ⟨h.nextPiece, _, hwalk, ?_⟩
      rw [Machine.set_registers_self, if_neg (by simpa using hzero)]
      exact h.pcAt_jump hsized rfl
    · rw [if_neg hzero] at hrun
      cases hrun
      refine ⟨h.nextPiece, _, hwalk, ?_⟩
      rw [if_pos (by simpa using hzero)]
      exact h.pcAt_behind

omit hsized in
theorem Fetched.level_round :
    m'.registers .sp = m'.registers .bp + BitVec.ofInt 64 (level + inst.spChange) := by
  obtain ⟨hbp, hsp, -⟩ := frame_of_fetch h.fetch
  have hlevel : next.registers .sp = next.registers .bp + BitVec.ofInt 64 level := by
    rw [hsp, hbp, h.sp]
  rw [execute_bp hnatives htame hframing hrun]
  -- the stack pointer is moved by pushes, pops and increments only
  have hstays : inst.spChange = 0 → m'.registers .sp = next.registers .sp →
      m'.registers .sp = next.registers .bp + BitVec.ofInt 64 (level + inst.spChange) := by
    intro hzero hsp'
    rw [hsp', hlevel, hzero, Int.add_zero]
  rcases htame.cases with hseq | rfl | rfl | rfl | ⟨reg, hreg, rfl⟩
  · rw [execute_sp hseq htame.sparesSp hrun, hlevel, BitVec.add_assoc, ← BitVec.ofInt_add]
  · have hneg : imm < 0 := by
      by_contra hnot
      exact hframing (.inl ⟨rfl, Int.not_lt.mp hnot⟩)
    simp only [execute, if_pos hneg] at hrun
    cases hrun
    exact hstays rfl (congrFun (hnatives imm next).1 .sp)
  · exact absurd (.inr rfl) hframing
  · cases hrun
    exact hstays rfl (Machine.set_registers_of_ne next _ (by decide))
  · simp only [execute] at hrun
    split at hrun <;> cases hrun
    · exact hstays rfl (Machine.set_registers_of_ne next _ (by decide))
    · exact hstays rfl rfl

/-- What a round makes of the frame of the machine, if it neither calls a piece nor returns. -/
theorem Fetched.round : vm.InCode (.ofMachine m') := by
  obtain ⟨hpiece, j, hwalk, hpc⟩ := h.goes htame hsized hnatives hframing hrun
  exact h.inCode hwalk hpiece hpc (h.level_round htame hnatives hframing hrun)

end Round

/-- Where a run gets behind a piece, control flow can come to its end. -/
theorem InCode.reaches_end (hclosed : vm.Closed) (hsized : vm.FitsInt)
    (h : vm.InCode (.ofMachine m)) (hstop : vm.step m = .error .pcOutOfBounds) :
    ∃ cells, vm.getPiece m.pieceIndex = some cells ∧ Reaches cells cells.length := by
  rcases h.fetched hclosed hsized with ⟨cells, i, level, inst, imm, next, h⟩ | ⟨cells, hpiece, hend, -⟩
  · rw [vm.step_of_fetch h.fetch] at hstop
    exact (execute_error hstop).elim
  · exact ⟨cells, hpiece, hend⟩

end VirtualMachine

end TinCompiler
