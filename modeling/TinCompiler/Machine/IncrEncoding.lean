import TinCompiler.Machine.StackEffect
import Mathlib.Algebra.Order.BigOperators.Group.List
import Mathlib.Algebra.Order.Ring.Nat

/-!
# The immediate of `INST_INCR`

`emit_incr` puts the immediate into two bytes and `INST_INCR` puts it together again, with the
sign of the low byte in all bits above it.  `Encodable` are the immediates that come back.
-/

namespace TinCompiler

open VirtualMachine

/-! ## What comes back -/

/-- With the highest bit set, the low byte is all that comes back. -/
theorem incrAmount_of_msb {x : BitVec 8} (y : BitVec 8) (h : x.msb = true) :
    incrAmount x y = x.signExtend 32 := by
  unfold incrAmount
  ext i hi
  simp only [BitVec.getElem_or, BitVec.getElem_shiftLeft, BitVec.getElem_signExtend, h]
  by_cases hlow : i < 8
  · simp [hlow]
  · simp [hlow]

theorem toInt_incrAmount {x : BitVec 8} (y : BitVec 8) (h : x.msb = false) :
    (incrAmount x y).toInt = y.toInt * 256 + x.toNat := by
  have hx : x.signExtend 32 = BitVec.ofInt 32 x.toNat := by
    rw [BitVec.signExtend_eq_setWidth_of_msb_false h, BitVec.ofInt_natCast, BitVec.ofNat_toNat]
  have hy : y.signExtend 32 <<< 8 = BitVec.ofInt 32 (y.toInt * 256) := by
    rw [BitVec.shiftLeft_eq_mul_twoPow, BitVec.ofInt_mul]
    rfl
  have hand : y.signExtend 32 <<< 8 &&& x.signExtend 32 = 0#32 := by
    ext i hi
    simp only [BitVec.getElem_and, BitVec.getElem_shiftLeft, BitVec.getElem_signExtend, h]
    by_cases hlow : i < 8
    · simp [hlow]
    · simp [hlow]
  have hor : incrAmount x y = y.signExtend 32 <<< 8 + x.signExtend 32 := by
    rw [BitVec.add_eq_or_of_and_eq_zero _ _ hand]
    exact BitVec.or_comm _ _
  rw [hor, hx, hy, ← BitVec.ofInt_add, BitVec.toInt_ofInt]
  have hylow := BitVec.le_toInt y
  have hyhigh := BitVec.toInt_lt (x := y)
  have hxhigh := x.isLt
  rw [Int.bmod_eq_of_le] <;> omega

/-- The low byte alone, where its highest bit is set; otherwise 16 bits. -/
theorem encodedIncr_eq (imm : ℤ) : encodedIncr imm =
    if imm % 256 < 128 then (imm + 32768) % 65536 - 32768 else imm % 256 - 256 := by
  have hlow : (BitVec.ofInt 8 imm).toNat = (imm % 256).toNat := by simp
  have hhigh : (BitVec.ofInt 8 (imm / 2 ^ 8)).toInt = (imm / 256).bmod 256 := by
    rw [BitVec.toInt_ofInt]
    rfl
  have hmsb : (BitVec.ofInt 8 imm).msb = decide (128 ≤ imm % 256) := by
    rw [BitVec.msb_eq_decide, hlow]
    simp
    omega
  unfold encodedIncr
  split
  · next hlt =>
      rw [toInt_incrAmount _ (by rw [hmsb]; simp [hlt]), hlow, hhigh, Int.bmod]
      omega
  · next hge =>
      rw [incrAmount_of_msb _ (by rw [hmsb]; simp; omega)]
      rw [BitVec.toInt_signExtend_of_le (by decide), BitVec.toInt_eq_toNat_cond, hlow]
      omega

/-- The negative bytes, and the 16-bit integers whose low byte does not have its highest bit
set. -/
def Encodable (imm : ℤ) : Prop :=
  (-128 ≤ imm ∧ imm < 0) ∨ (-32768 ≤ imm ∧ imm < 32768 ∧ imm % 256 < 128)

theorem encodedIncr_eq_iff (imm : ℤ) : encodedIncr imm = imm ↔ Encodable imm := by
  rw [encodedIncr_eq]
  unfold Encodable
  split <;> omega

theorem encodedIncr_bounds (imm : ℤ) : -32768 ≤ encodedIncr imm ∧ encodedIncr imm < 32768 := by
  rw [encodedIncr_eq]
  split <;> omega

/-! ## One instruction -/

/-- Where the instruction that `emit_incr` adds is executed without a stack overflow, it adds
the immediate to the register. -/
def AddsExactly (reg : Register) (imm : ℤ) : Prop :=
  ∀ (piece : BytecodePiece) (inst : Instruction),
    (piece.emitIncr reg imm).instructions.getLast? = some (.inst inst) →
    ∀ (vm : VirtualMachine) (m m' : Machine), vm.execute m 0 inst = .ok m' →
      m'.registers reg = m.registers reg + BitVec.ofInt 64 imm

theorem getLast_emitIncr (piece : BytecodePiece) (reg : Register) (imm : ℤ) :
    (piece.emitIncr reg imm).instructions.getLast? = some (.inst (Op.incr reg imm).inst) := by
  unfold BytecodePiece.emitIncr
  split <;> simp [BytecodePiece.emit, Op.incr]

theorem execute_incr {vm : VirtualMachine} {m m' : Machine} {reg : Register} {imm : ℤ}
    (h : vm.execute m 0 (Op.incr reg imm).inst = .ok m') :
    m' = m.set reg (m.registers reg + BitVec.ofInt 64 (encodedIncr imm)) := by
  simp only [Op.incr, execute] at h
  split at h
  · exact checkStack_eq_ok h
  · exact (Except.ok.inj h).symm

/-- The machine of the stack at `2 ^ 20` with this stack pointer. -/
def machineAt (offset : ℤ) : Machine where
  registers := fun _ => BitVec.ofInt 64 (0x100000 + offset)
  memory := fun _ => 0

theorem checkStack_machineAt (offset : ℤ) (hlow : 0 ≤ offset) (hhigh : offset ≤ 0x10000)
    {m : Machine} (h : m.registers .sp = BitVec.ofInt 64 (0x100000 + offset)) :
    (ofPieces []).checkStack m = .ok m := by
  have hsp : (m.registers .sp).toInt = 0x100000 + offset := by
    rw [h, BitVec.toInt_ofInt, Int.bmod_eq_of_le] <;> omega
  refine if_pos ?_
  rw [hsp]
  simp only [ofPieces]
  omega

/-- Where the stack pointer stays on the stack, the instruction is executed. -/
theorem execute_incr_ok {offset imm : ℤ} {reg : Register} {m : Machine}
    (h : m.registers .sp = BitVec.ofInt 64 (0x100000 + offset))
    (hlow : 0 ≤ offset + encodedIncr imm) (hhigh : offset + encodedIncr imm ≤ 0x10000) :
    ∃ m', (ofPieces []).execute m 0 (Op.incr reg imm).inst = .ok m' := by
  simp only [Op.incr, execute]
  split
  · next hsp =>
      subst hsp
      refine ⟨_, checkStack_machineAt _ hlow hhigh ?_⟩
      rw [Machine.set_registers_self, h, ← Int.add_assoc, BitVec.ofInt_add _ (encodedIncr imm)]
      rfl
  · exact ⟨_, rfl⟩

theorem eq_of_ofInt_eq {x y : ℤ} (h : BitVec.ofInt 64 x = BitVec.ofInt 64 y)
    (hx : -2 ^ 63 ≤ x ∧ x < 2 ^ 63) (hy : -2 ^ 63 ≤ y ∧ y < 2 ^ 63) : x = y := by
  have htoInt := congrArg BitVec.toInt h
  rwa [BitVec.toInt_ofInt, BitVec.toInt_ofInt, Int.bmod_eq_of_le, Int.bmod_eq_of_le] at htoInt
    <;> omega

theorem addsExactly_iff (reg : Register) {imm : ℤ} (hlow : -2 ^ 31 ≤ imm) (hhigh : imm < 2 ^ 31) :
    AddsExactly reg imm ↔ Encodable imm := by
  rw [← encodedIncr_eq_iff]
  obtain ⟨hlow', hhigh'⟩ := encodedIncr_bounds imm
  constructor
  · intro h
    -- a stack pointer that stays on the stack
    have hexec : ∃ m', (ofPieces []).execute (machineAt (max 0 (-encodedIncr imm))) 0
        (Op.incr reg imm).inst = .ok m' :=
      execute_incr_ok rfl (by omega) (by omega)
    obtain ⟨m', hm'⟩ := hexec
    have hadded := h {} _ (getLast_emitIncr {} reg imm) _ _ _ hm'
    rw [execute_incr hm', Machine.set_registers_self] at hadded
    exact eq_of_ofInt_eq (BitVec.add_right_inj _ |>.mp hadded) (by omega) (by omega)
  · intro h piece inst hinst vm m m' hexec
    rw [getLast_emitIncr] at hinst
    obtain rfl := Cell.inst.inj (Option.some.inj hinst)
    rw [execute_incr hexec, Machine.set_registers_self, h]

/-! ## Frames -/

/-- The immediates of a frame or of an argument area: every part is reserved by itself, and all
of them are released at once. -/
def frameAmounts (sizes : List ℕ) : List ℤ :=
  sizes.map (fun size : ℕ => -(size : ℤ)) ++ [(sizes.sum : ℤ)]

/-- The reservations and the release of a frame. -/
def emitFrame (piece : BytecodePiece) (sizes : List ℕ) : BytecodePiece :=
  (frameAmounts sizes).foldl (fun piece imm => piece.emitIncr .sp imm) piece

theorem virtualSp_emitIncr (piece : BytecodePiece) (amounts : List ℤ) :
    (amounts.foldl (fun piece imm => piece.emitIncr .sp imm) piece).virtualSp =
      piece.virtualSp + amounts.sum := by
  induction amounts generalizing piece with
  | nil => exact (Int.add_zero _).symm
  | cons imm amounts ih =>
      calc _ = (piece.emitIncr .sp imm).virtualSp + amounts.sum := ih _
        _ = piece.virtualSp + imm + amounts.sum := rfl
        _ = piece.virtualSp + (imm :: amounts).sum := by rw [List.sum_cons, Int.add_assoc]

theorem sum_frameAmounts (sizes : List ℕ) : (frameAmounts sizes).sum = 0 := by
  have hneg : (sizes.map fun size : ℕ => -(size : ℤ)).sum = -(sizes.sum : ℤ) := by
    induction sizes with
    | nil => rfl
    | cons size sizes ih =>
        rw [List.map_cons, List.sum_cons, ih, List.sum_cons]
        omega
  rw [frameAmounts, List.sum_append, hneg, List.sum_singleton]
  omega

/-- A frame that is reserved and released leaves `virtual_sp` alone. -/
theorem virtualSp_emitFrame (piece : BytecodePiece) (sizes : List ℕ) :
    (emitFrame piece sizes).virtualSp = piece.virtualSp := by
  rw [emitFrame, virtualSp_emitIncr, sum_frameAmounts, Int.add_zero]

/-- The operations of a frame. -/
def frameOps (sizes : List ℕ) : List Op := (frameAmounts sizes).map (Op.incr .sp)

theorem instructions_emitFrame (piece : BytecodePiece) (sizes : List ℕ) :
    (emitFrame piece sizes).instructions = piece.instructions ++ Op.flatten (frameOps sizes) := by
  unfold emitFrame frameOps
  generalize frameAmounts sizes = amounts
  induction amounts generalizing piece with
  | nil => exact (List.append_nil _).symm
  | cons imm amounts ih =>
      have hemit : (piece.emitIncr .sp imm).instructions =
          piece.instructions ++ [.inst (Op.incr .sp imm).inst] := rfl
      calc _ = (piece.emitIncr .sp imm).instructions ++
            Op.flatten (amounts.map (Op.incr .sp)) := ih _
        _ = piece.instructions ++ Op.flatten ((imm :: amounts).map (Op.incr .sp)) := by
            rw [hemit, List.append_assoc]
            rfl

/-- On the machine, a frame that is reserved and released leaves the stack pointer alone. -/
def Cancels (sizes : List ℕ) : Prop :=
  ∀ (vm : VirtualMachine) (m m' : Machine), vm.runOps (frameOps sizes) m = .ok m' →
    m'.registers .sp = m.registers .sp

theorem runOps_incr {vm : VirtualMachine} {m m' : Machine} (amounts : List ℤ)
    (h : vm.runOps (amounts.map (Op.incr .sp)) m = .ok m') :
    m'.registers .sp = m.registers .sp + BitVec.ofInt 64 (amounts.map encodedIncr).sum := by
  induction amounts generalizing m with
  | nil =>
      cases h
      simp
  | cons imm amounts ih =>
      rw [List.map_cons, runOps] at h
      cases hexec : vm.execute (m.set .pc (m.registers .pc +
          BitVec.ofNat 64 (Op.incr .sp imm).cells.length)) 0 (Op.incr .sp imm).inst with
      | error stop =>
          have herror : (Op.incr .sp imm).imm.getD 0 = 0 := rfl
          rw [herror, hexec] at h
          cases h
      | ok next =>
          have himm : (Op.incr .sp imm).imm.getD 0 = 0 := rfl
          rw [himm, hexec] at h
          rw [ih h, execute_incr hexec, Machine.set_registers_self,
            Machine.set_registers_of_ne _ _ (by decide), List.map_cons, List.sum_cons,
            BitVec.ofInt_add, BitVec.add_assoc]

theorem cancels_of_encodable {sizes : List ℕ} (h : ∀ imm ∈ frameAmounts sizes, Encodable imm) :
    Cancels sizes := by
  intro vm m m' hrun
  have hsame : (frameAmounts sizes).map encodedIncr = frameAmounts sizes :=
    (List.map_congr_left fun imm hmem => (encodedIncr_eq_iff imm).mpr (h imm hmem)).trans
      (List.map_id _)
  rw [runOps_incr _ hrun, hsame, sum_frameAmounts]
  simp

/-- The sizes that can be reserved and released: up to a multiple of `2 ^ 16` those of 127 at
most, and the multiples of 256 but for `2 ^ 15`. -/
def Reversible (size : ℕ) : Prop :=
  size % 65536 < 128 ∨ 65536 - 128 < size % 65536 ∨ (size % 256 = 0 ∧ size % 65536 ≠ 32768)

theorem encodedIncr_neg_add_iff (size : ℕ) :
    encodedIncr (-size) + encodedIncr size = 0 ↔ Reversible size := by
  rw [encodedIncr_eq, encodedIncr_eq]
  unfold Reversible
  split <;> split <;> omega

/-- There is a stack pointer from which two amounts are added without leaving the stack. -/
theorem runOps_pair_ok (first second : ℤ) : ∃ m', (ofPieces []).runOps
    [Op.incr .sp first, Op.incr .sp second]
    (machineAt (max 0 (max (-encodedIncr first) (-(encodedIncr first + encodedIncr second))))) =
      .ok m' := by
  obtain ⟨hlow, hhigh⟩ := encodedIncr_bounds first
  obtain ⟨hlow', hhigh'⟩ := encodedIncr_bounds second
  generalize hoffset :
    max 0 (max (-encodedIncr first) (-(encodedIncr first + encodedIncr second))) = offset
  have hpc : ∀ (m : Machine) (value : BitVec 64),
      (m.set .pc value).registers .sp = m.registers .sp :=
    fun m value => Machine.set_registers_of_ne m value (by decide)
  have hstart : ((machineAt offset).set .pc ((machineAt offset).registers .pc + 1)).registers .sp =
      BitVec.ofInt 64 (0x100000 + offset) := hpc _ _
  obtain ⟨m₁, hm₁⟩ := @execute_incr_ok offset first .sp _ hstart (by omega) (by omega)
  have hsp : m₁.registers .sp = BitVec.ofInt 64 (0x100000 + (offset + encodedIncr first)) := by
    rw [execute_incr hm₁, Machine.set_registers_self, hpc, ← Int.add_assoc, BitVec.ofInt_add _ (encodedIncr first)]
    rfl
  have hsp' := (hpc m₁ (m₁.registers .pc + 1)).trans hsp
  obtain ⟨m₂, hm₂⟩ := @execute_incr_ok _ second .sp _ hsp' (by omega) (by omega)
  refine ⟨m₂, ?_⟩
  change ((ofPieces []).execute ((machineAt offset).set .pc ((machineAt offset).registers .pc + 1))
    0 (Op.incr .sp first).inst).bind _ = _
  rw [hm₁]
  change ((ofPieces []).execute (m₁.set .pc (m₁.registers .pc + 1)) 0
    (Op.incr .sp second).inst).bind _ = _
  rw [hm₂]
  rfl

theorem cancels_singleton_iff (size : ℕ) : Cancels [size] ↔ Reversible size := by
  rw [← encodedIncr_neg_add_iff]
  have hsum : (((frameAmounts [size]).map encodedIncr).sum) =
      encodedIncr (-size) + encodedIncr size := by
    simp [frameAmounts]
  constructor
  · intro h
    obtain ⟨hlow, hhigh⟩ := encodedIncr_bounds (-size)
    obtain ⟨hlow', hhigh'⟩ := encodedIncr_bounds size
    obtain ⟨m', hrun⟩ := runOps_pair_ok (-size) size
    have hsp := h _ _ _ hrun
    rw [runOps_incr (frameAmounts [size]) hrun, hsum] at hsp
    have hzero : BitVec.ofInt 64 (encodedIncr (-size) + encodedIncr size) = BitVec.ofInt 64 0 := by
      rw [← BitVec.add_right_inj, hsp]
      simp
    exact eq_of_ofInt_eq hzero (by omega) (by omega)
  · intro h vm m m' hrun
    rw [runOps_incr _ hrun, hsum, h]
    simp

/-- The immediates that come back, the frames all of whose amounts do, and the argument areas
that are released as they were reserved; in `virtual_sp` every frame is. -/
theorem incr_encoding (reg : Register) {imm : ℤ} (hlow : -2 ^ 31 ≤ imm) (hhigh : imm < 2 ^ 31)
    {sizes : List ℕ} (hsum : sizes.sum < 2 ^ 31) (size : ℕ) (piece : BytecodePiece) :
    (AddsExactly reg imm ↔ Encodable imm) ∧
    ((∀ amount ∈ frameAmounts sizes, AddsExactly .sp amount) ∧ Cancels sizes ↔
      ∀ amount ∈ frameAmounts sizes, Encodable amount) ∧
    (Cancels [size] ↔ Reversible size) ∧
    (emitFrame piece sizes).virtualSp = piece.virtualSp := by
  refine ⟨addsExactly_iff reg hlow hhigh, ?_, cancels_singleton_iff size,
    virtualSp_emitFrame piece sizes⟩
  have hrange : ∀ amount ∈ frameAmounts sizes, -2 ^ 31 ≤ amount ∧ amount < 2 ^ 31 := by
    intro amount hmem
    rcases List.mem_append.mp hmem with hmem | hmem
    · obtain ⟨part, hpart, rfl⟩ := List.mem_map.mp hmem
      have hle := List.le_sum_of_mem hpart
      omega
    · rw [List.mem_singleton] at hmem
      omega
  have hiff : ∀ amount ∈ frameAmounts sizes, (AddsExactly .sp amount ↔ Encodable amount) :=
    fun amount hmem => addsExactly_iff .sp (hrange amount hmem).1 (hrange amount hmem).2
  constructor
  · rintro ⟨hexact, -⟩ amount hmem
    exact (hiff amount hmem).mp (hexact amount hmem)
  · intro h
    exact ⟨fun amount hmem => (hiff amount hmem).mpr (h amount hmem), cancels_of_encodable h⟩

theorem incr_encoding_local : AddsExactly .sp (-8) ∧ Cancels [8] := by
  have hencodable : Encodable (-8) := Or.inl ⟨by omega, by omega⟩
  have hreversible : Reversible 8 := Or.inl (by omega)
  have hlocal := @incr_encoding .sp (-8) (by decide) (by decide) [8] (by decide) 8 {}
  exact ⟨hlocal.1.mpr hencodable, hlocal.2.2.1.mpr hreversible⟩

/-- 128 bytes of locals are not released: 128 is encoded as -128. -/
theorem not_incr_exact : ¬ ∀ (reg : Register) (imm : ℤ), -2 ^ 31 ≤ imm → imm < 2 ^ 31 →
    AddsExactly reg imm := by
  intro h
  have hexact := h .sp 128 (by decide) (by decide)
  rw [addsExactly_iff .sp (by decide) (by decide)] at hexact
  unfold Encodable at hexact
  omega

end TinCompiler
