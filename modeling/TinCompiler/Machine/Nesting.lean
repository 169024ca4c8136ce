import TinCompiler.Machine.Accesses
import TinCompiler.Library.Transition

/-!
# Calls and returns nest

`INST_CALL` pushes the program counter, the piece and the base pointer, and lets the base
pointer point at this record.  A `Nesting` is a machine with its unfinished calls.  As long
as nothing else writes the base pointer or a record, the records that are found by following
the base pointer are those of the unfinished calls, at increasing addresses up to the base of
`main`, and an `INST_RET` restores what its call has saved (`nested_of_reachable`).
-/

namespace TinCompiler

/-- The caller behind an `INST_CALL` and its immediate. -/
@[ext] structure Frame where
  pc : BitVec 64
  pieceIndex : ℤ
  bp : BitVec 64
  sp : BitVec 64

/-- A machine with its unfinished calls, the innermost first. -/
structure Nesting where
  machine : Machine
  frames : List Frame := []

namespace Frame

def ofMachine (m : Machine) : Frame where
  pc := m.registers .pc
  pieceIndex := m.pieceIndex
  bp := m.registers .bp
  sp := m.registers .sp

/-- Where the call has its record. -/
def record (frame : Frame) : BitVec 64 := frame.sp - 16

/-- What `INST_RET` reads. -/
structure Recorded (mem : ByteMemory) (frame : Frame) : Prop where
  bp : mem.load frame.record.toNat 8 = frame.bp
  pieceIndex : ((mem.load (frame.record + 8).toNat 4 : BitVec 64).setWidth 32).toInt =
    frame.pieceIndex
  pc : ((mem.load (frame.record + 8 + 4).toNat 4 : BitVec 64).setWidth 32).signExtend 64 =
    frame.pc

end Frame

namespace VirtualMachine

variable (vm : VirtualMachine)

/-- The base of `main`. -/
def top : BitVec 64 := BitVec.ofNat 64 (vm.stack + vm.stackMax)

/-- The cells and the pieces are indexed by an `int`. -/
structure IntSized : Prop where
  pieces : vm.pieces.length < 2 ^ 31
  cells : ∀ cells ∈ vm.pieces, cells.length < 2 ^ 31

/-- A call that is executed is a new unfinished one, a return finishes the innermost. -/
def unfinished (s : Nesting) : List Frame :=
  match vm.fetch s.machine with
  | some (.call, imm, next) => if imm < 0 then s.frames else .ofMachine next :: s.frames
  | some (.ret, _, _) => s.frames.tail
  | _ => s.frames

/-- The loop of `execute`; it starts with both pointers at the top of the stack. -/
def nesting : Transition Nesting where
  init s := s.machine.registers .sp = vm.top ∧ s.machine.registers .bp = vm.top ∧ s.frames = []
  step s s' := vm.step s.machine = .ok s'.machine ∧ s'.frames = vm.unfinished s

/-- The instruction calls a function with a piece, or returns. -/
def Framing (inst : Instruction) (imm : ℤ) : Prop := (inst = .call ∧ 0 ≤ imm) ∨ inst = .ret

/-- The stack pointer is not behind the base pointer at a call, and nothing but a call writes
to a record. -/
structure SparesRecords (s s' : Nesting) : Prop where
  calls : ∀ imm next, vm.fetch s.machine = some (.call, imm, next) → 0 ≤ imm →
    (s.machine.registers .sp).toNat ≤ (s.machine.registers .bp).toNat
  records : ∀ inst imm next, vm.fetch s.machine = some (inst, imm, next) → ¬ Framing inst imm →
    ∀ frame ∈ s.frames, ∀ i < 16,
      s'.machine.memory (frame.record.toNat + i) = s.machine.memory (frame.record.toNat + i)

/-- Only calls and returns write the base pointer. -/
def SparesBase (s s' : Nesting) : Prop :=
  ∀ inst imm next, vm.fetch s.machine = some (inst, imm, next) → ¬ Framing inst imm →
    s'.machine.registers .bp = s.machine.registers .bp

/-- The addresses found by following the base pointer through `n` records. -/
def follow (mem : ByteMemory) : ℕ → BitVec 64 → List (BitVec 64)
  | 0, bp => [bp]
  | n + 1, bp => bp :: follow mem n (mem.load bp.toNat 8)

/-- The addresses that are found by following the base pointer. -/
def chain (s : Nesting) : List (BitVec 64) :=
  follow s.machine.memory s.frames.length (s.machine.registers .bp)

/-- The records are chained, and a return restores its caller. -/
structure Nested (s : Nesting) : Prop where
  /-- one record for each unfinished call, and the base of `main` behind them -/
  chain_eq : chain s = s.frames.map Frame.record ++ [vm.top]
  increasing : (chain s).Pairwise fun lower upper => lower.toNat < upper.toNat
  returns : ∀ frame frames imm next, s.frames = frame :: frames →
    vm.fetch s.machine = some (.ret, imm, next) →
    s.machine.registers .sp = s.machine.registers .bp →
    ∃ m, vm.step s.machine = .ok m ∧ Frame.ofMachine m = frame

/-- The run ends normally in `main` only. -/
def HaltsInMain (s : Nesting) : Prop :=
  vm.step s.machine = .error .finished →
    (∃ imm next, vm.fetch s.machine = some (.ret, imm, next)) ∧ s.frames = []

/-- The frames are recorded one behind the other, the first one at `bp`. -/
def Chained (mem : ByteMemory) : BitVec 64 → List Frame → Prop
  | bp, [] => bp = vm.top
  | bp, frame :: frames =>
      bp = frame.record ∧ frame.Recorded mem ∧
        (16 ≤ frame.sp.toNat ∧ vm.stack ≤ frame.record.toNat) ∧
        frame.sp.toNat ≤ frame.bp.toNat ∧ Chained mem frame.bp frames

section Proofs

variable {vm} {mem mem' : ByteMemory} {m m' : Machine} {imm : ℤ} {bp : BitVec 64}
  {frame : Frame} {frames : List Frame}

/-! ## Records in the memory -/

theorem toNat_top (vm : VirtualMachine) : vm.top.toNat = vm.stack + vm.stackMax := by
  have hlt := vm.stack_lt
  rw [top, BitVec.toNat_ofNat, Nat.mod_eq_of_lt (by omega)]

theorem onStack_iff {sp : BitVec 64} :
    vm.onStack sp ↔ vm.stack ≤ sp.toNat ∧ sp.toNat ≤ vm.top.toNat := by
  have hlt := vm.stack_lt
  rw [toNat_top, onStack, BitVec.toInt_eq_toNat_cond]
  split <;> omega

theorem toNat_sub_of_le {x y : BitVec 64} (h : y.toNat ≤ x.toNat) :
    (x - y).toNat = x.toNat - y.toNat := by
  rw [BitVec.toNat_sub]
  omega

theorem toNat_add_of_lt {x y : BitVec 64} (h : x.toNat + y.toNat < 2 ^ 64) :
    (x + y).toNat = x.toNat + y.toNat := by
  rw [BitVec.toNat_add, Nat.mod_eq_of_lt h]

/-- The four parts of a record: its end is where the stack pointer was. -/
theorem toNat_record (h : 16 ≤ frame.sp.toNat) : frame.record.toNat + 16 = frame.sp.toNat ∧
    (frame.record + 8).toNat = frame.record.toNat + 8 ∧
    (frame.record + 8 + 4).toNat = frame.record.toNat + 12 := by
  have hlt := frame.sp.isLt
  have hrecord : frame.record.toNat = frame.sp.toNat - 16 := toNat_sub_of_le h
  have hpiece : (frame.record + 8).toNat = frame.record.toNat + 8 :=
    toNat_add_of_lt (by change _ + 8 < _; omega)
  have hpc : (frame.record + 8 + 4).toNat = (frame.record + 8).toNat + 4 :=
    toNat_add_of_lt (by change _ + 4 < _; omega)
  omega

/-- A record is read from its own bytes. -/
theorem recorded_congr (h : frame.Recorded mem) (hsp : 16 ≤ frame.sp.toNat)
    (hsame : ∀ i < 16, mem' (frame.record.toNat + i) = mem (frame.record.toNat + i)) :
    frame.Recorded mem' := by
  obtain ⟨-, hpiece, hpc⟩ := toNat_record hsp
  have hload : ∀ n offset, offset + n ≤ 16 →
      (mem'.load (frame.record.toNat + offset) n : BitVec 64) =
        mem.load (frame.record.toNat + offset) n := by
    intro n offset hle
    refine ByteMemory.load_congr fun i hi => ?_
    rw [Nat.add_assoc]
    exact hsame (offset + i) (by omega)
  refine ⟨?_, ?_, ?_⟩
  · rw [← h.bp]
    exact hload 8 0 (by decide)
  · rw [← h.pieceIndex, hpiece, hload 4 8 (by decide)]
  · rw [← h.pc, hpc, hload 4 12 (by decide)]

/-- The records are between the base pointer and the top of the stack. -/
theorem chained_bounds : ∀ {frames : List Frame} {bp : BitVec 64}, vm.Chained mem bp frames →
    bp.toNat ≤ vm.top.toNat ∧
      ∀ frame ∈ frames, bp.toNat ≤ frame.record.toNat ∧ 16 ≤ frame.sp.toNat
  | [], bp, h => ⟨Nat.le_of_eq (congrArg BitVec.toNat h), fun _ hmem => absurd hmem List.not_mem_nil⟩
  | first :: frames, bp, ⟨hbp, _, ⟨hsp, _⟩, hle, hrest⟩ => by
      obtain ⟨htop, hrecords⟩ := chained_bounds hrest
      have hrecord := (toNat_record hsp).1
      subst hbp
      refine ⟨by omega, fun frame hmem => ?_⟩
      rcases List.mem_cons.mp hmem with rfl | hmem
      · exact ⟨Nat.le_refl _, hsp⟩
      · have := hrecords frame hmem
        exact ⟨by omega, this.2⟩

theorem chained_congr : ∀ {frames : List Frame} {bp : BitVec 64}, vm.Chained mem bp frames →
    (∀ frame ∈ frames, ∀ i < 16, mem' (frame.record.toNat + i) = mem (frame.record.toNat + i)) →
    vm.Chained mem' bp frames
  | [], _, h, _ => h
  | _ :: _, _, ⟨hbp, hrecorded, hsp, hle, hrest⟩, hsame =>
      ⟨hbp, recorded_congr hrecorded hsp.1 (hsame _ (List.mem_cons_self ..)), hsp, hle,
        chained_congr hrest fun frame hmem => hsame frame (List.mem_cons_of_mem _ hmem)⟩

/-- Following the base pointer gives the records and the base of `main`. -/
theorem follow_eq_of_chained : ∀ {frames : List Frame} {bp : BitVec 64}, vm.Chained mem bp frames →
    follow mem frames.length bp = frames.map Frame.record ++ [vm.top]
  | [], _, h => by
      subst h
      rfl
  | frame :: frames, _, ⟨hbp, hrecorded, _, _, hrest⟩ => by
      subst hbp
      rw [List.length_cons, follow, hrecorded.bp, follow_eq_of_chained hrest]
      rfl

theorem increasing_of_chained : ∀ {frames : List Frame} {bp : BitVec 64}, vm.Chained mem bp frames →
    (frames.map Frame.record ++ [vm.top]).Pairwise fun lower upper => lower.toNat < upper.toNat
  | [], _, _ => List.pairwise_singleton _ _
  | first :: frames, _, ⟨_, _, ⟨hsp, _⟩, hle, hrest⟩ => by
      obtain ⟨htop, hrecords⟩ := chained_bounds hrest
      have hrecord := (toNat_record hsp).1
      rw [List.map_cons, List.cons_append, List.pairwise_cons]
      refine ⟨fun upper hmem => ?_, increasing_of_chained hrest⟩
      rcases List.mem_append.mp hmem with hmem | hmem
      · obtain ⟨frame, hframe, rfl⟩ := List.mem_map.mp hmem
        have := (hrecords frame hframe).1
        omega
      · rw [List.mem_singleton.mp hmem]
        omega

/-! ## Calls -/

/-- What a call leaves. -/
theorem call_eq_ok (h : vm.call m imm = .ok m') :
    vm.onStack (m.registers .sp - 4 - 4 - 8) ∧
      m'.registers .bp = m.registers .sp - 4 - 4 - 8 ∧
      m'.memory = ((m.memory.store (m.registers .sp - 4).toNat 4 (m.registers .pc)).store
        (m.registers .sp - 4 - 4).toNat 4 (BitVec.ofInt 64 m.pieceIndex)).store
          (m.registers .sp - 4 - 4 - 8).toNat 8 (m.registers .bp) := by
  simp only [call, bind, Except.bind] at h
  split at h
  · cases h
  · next hfirst =>
      cases checkStack_eq_ok hfirst
      split at h
      · cases h
      · next hsecond =>
          cases checkStack_eq_ok hsecond
          split at h
          · cases h
          · next hthird =>
              obtain ⟨heq, honStack⟩ := onStack_of_checkStack hthird
              cases heq
              cases h
              exact ⟨honStack, rfl, rfl⟩

/-- A stack pointer that has room below it. -/
theorem sixteen_le {sp : BitVec 64} (honStack : vm.onStack (sp - 4 - 4 - 8)) :
    16 ≤ sp.toNat := by
  by_contra hlt
  have hsub : (sp - 4 - 4 - 8).toNat = 2 ^ 64 + sp.toNat - 16 := by
    rw [BitVec.toNat_sub, BitVec.toNat_sub, BitVec.toNat_sub]
    change (2 ^ 64 - 8 + (2 ^ 64 - 4 + (2 ^ 64 - 4 + sp.toNat) % 2 ^ 64) % 2 ^ 64) % 2 ^ 64 = _
    omega
  have hlow := honStack.1
  rw [BitVec.toInt_eq_toNat_cond, hsub, if_neg (by omega)] at hlow
  omega

/-- The low half of a word that is small. -/
theorem toInt_low {x : BitVec 64} (h : x.toNat < 2 ^ 31) :
    (((x.setWidth 32).setWidth 64).setWidth 32 : BitVec 32).toInt = x.toNat := by
  rw [BitVec.toInt_setWidth, BitVec.toNat_setWidth, BitVec.toNat_setWidth,
    Int.bmod_eq_of_le] <;> omega

theorem recorded_call {sp pc : BitVec 64} {pieceIndex : ℤ} (hsp : 16 ≤ sp.toNat)
    (hpc : pc.toNat < 2 ^ 31) (hpiece : 0 ≤ pieceIndex ∧ pieceIndex < 2 ^ 31) :
    (Frame.mk pc pieceIndex bp sp).Recorded
      (((mem.store (sp - 4).toNat 4 pc).store (sp - 4 - 4).toNat 4 (BitVec.ofInt 64 pieceIndex)).store
        (sp - 4 - 4 - 8).toNat 8 bp) := by
  have hfirst : (sp - 4).toNat = sp.toNat - 4 := toNat_sub_of_le (by change 4 ≤ _; omega)
  have hsecond : (sp - 4 - 4).toNat = sp.toNat - 8 := by
    rw [toNat_sub_of_le (by change 4 ≤ _; omega), hfirst]
    change sp.toNat - 4 - 4 = _
    omega
  have hthird : (sp - 4 - 4 - 8).toNat = sp.toNat - 16 := by
    rw [toNat_sub_of_le (by change 8 ≤ _; omega), hsecond]
    change sp.toNat - 8 - 8 = _
    omega
  obtain ⟨hrecord, hrecord₈, hrecord₁₂⟩ := @toNat_record ⟨pc, pieceIndex, bp, sp⟩ hsp
  dsimp only at hrecord
  rw [hfirst, hsecond, hthird]
  refine ⟨?_, ?_, ?_⟩
  · have haddr : (Frame.mk pc pieceIndex bp sp).record.toNat = sp.toNat - 16 := by omega
    rw [haddr, ByteMemory.load_store_word _ _ (by decide)]
  · have haddr : ((Frame.mk pc pieceIndex bp sp).record + 8).toNat = sp.toNat - 8 := by omega
    rw [haddr, ByteMemory.load_store_disjoint _ _ (by omega), ByteMemory.load_store_same]
    have htoNat : ((BitVec.ofInt 64 pieceIndex).toNat : ℤ) = pieceIndex := by
      rw [BitVec.toNat_ofInt]
      omega
    exact (toInt_low (by omega)).trans htoNat
  · have haddr : ((Frame.mk pc pieceIndex bp sp).record + 8 + 4).toNat = sp.toNat - 4 := by omega
    rw [haddr, ByteMemory.load_store_disjoint _ _ (by omega),
      ByteMemory.load_store_disjoint _ _ (by omega), ByteMemory.load_store_same]
    have hpcInt : pc.toInt = pc.toNat := by
      rw [BitVec.toInt_eq_toNat_cond, if_pos (by omega)]
    refine BitVec.eq_of_toInt_eq ?_
    rw [BitVec.toInt_signExtend_of_le (by decide)]
    exact (toInt_low hpc).trans hpcInt.symm

/-- A call puts its record in front of the others. -/
theorem chained_call (hchained : vm.Chained m.memory (m.registers .bp) frames)
    (hle : (m.registers .sp).toNat ≤ (m.registers .bp).toNat)
    (hpc : (m.registers .pc).toNat < 2 ^ 31) (hpiece : 0 ≤ m.pieceIndex ∧ m.pieceIndex < 2 ^ 31)
    (h : vm.call m imm = .ok m') :
    vm.Chained m'.memory (m'.registers .bp) (.ofMachine m :: frames) := by
  obtain ⟨honStack, hbp, hmemory⟩ := call_eq_ok h
  have hsp := sixteen_le honStack
  have hrecord := (@toNat_record (.ofMachine m) hsp).1
  have hbase : m.registers .sp - 4 - 4 - 8 = (Frame.ofMachine m).record := by
    change m.registers .sp - 4 - 4 - 8 = m.registers .sp - 16
    rw [BitVec.sub_sub, BitVec.sub_sub]
    rfl
  have hstack : vm.stack ≤ (Frame.ofMachine m).record.toNat := by
    rw [← hbase]
    exact (onStack_iff.mp honStack).1
  refine ⟨hbp.trans hbase, ?_, ⟨hsp, hstack⟩, hle, chained_congr hchained ?_⟩
  · rw [hmemory]
    exact recorded_call hsp hpc hpiece
  · -- the records of the unfinished calls are above the stack pointer
    intro frame hmem i hi
    have hbound := (chained_bounds hchained).2 frame hmem
    have hfirst : (m.registers .sp - 4).toNat = (m.registers .sp).toNat - 4 :=
      toNat_sub_of_le (by change 4 ≤ _; omega)
    have hsecond : (m.registers .sp - 4 - 4).toNat = (m.registers .sp).toNat - 8 := by
      rw [toNat_sub_of_le (by change 4 ≤ _; omega), hfirst]
      change (m.registers .sp).toNat - 4 - 4 = _
      omega
    have hthird : (m.registers .sp - 4 - 4 - 8).toNat = (m.registers .sp).toNat - 16 := by
      rw [hbase]
      exact Nat.eq_sub_of_add_eq hrecord
    rw [hmemory, hfirst, hsecond, hthird, ByteMemory.store_apply_of_not_mem (by omega),
      ByteMemory.store_apply_of_not_mem (by omega), ByteMemory.store_apply_of_not_mem (by omega)]

/-! ## Returns -/

/-- A return from a call reads its record. -/
theorem ret_eq_ok (hchained : vm.Chained m.memory (m.registers .bp) (frame :: frames))
    (hsp : m.registers .sp = m.registers .bp) :
    ∃ m', vm.ret m = .ok m' ∧ Frame.ofMachine m' = frame ∧ m'.memory = m.memory := by
  obtain ⟨hbp, hrecorded, ⟨hsixteen, hstack⟩, hle, hrest⟩ := hchained
  have htop := (chained_bounds hrest).1
  obtain ⟨hrecord, hrecord₈, hrecord₁₂⟩ := toNat_record hsixteen
  have hsp' : m.registers .sp = frame.record := hsp.trans hbp
  have hend : frame.record + 8 + 4 + 4 = frame.sp := by
    rw [Frame.record, BitVec.add_assoc, BitVec.add_assoc]
    exact BitVec.sub_add_cancel _ _
  have hnottop : m.registers .sp ≠ BitVec.ofNat 64 (vm.stack + vm.stackMax) := by
    intro heq
    have : frame.record.toNat = vm.top.toNat := congrArg BitVec.toNat (hsp'.symm.trans heq)
    omega
  have hbind : ∀ {m : Machine} {f : Machine → Except Stop Machine},
      vm.onStack (m.registers .sp) → (vm.checkStack m >>= f) = f m := by
    intro m f honStack
    rw [checkStack_of_onStack honStack]
    rfl
  unfold ret
  rw [if_neg hnottop, if_neg (not_not_intro hsp.symm)]
  dsimp only
  have hbp₁ : ((m.set .bp (m.loadSp 8)).set .sp
      ((m.set .bp (m.loadSp 8)).registers .sp + 8)).registers .bp = frame.bp := by
    rw [Machine.set_registers_of_ne _ _ (by decide), Machine.set_registers_self, Machine.loadSp,
      hsp', hrecorded.bp]
  have hsp₁ : ((m.set .bp (m.loadSp 8)).set .sp
      ((m.set .bp (m.loadSp 8)).registers .sp + 8)).registers .sp = frame.record + 8 := by
    rw [Machine.set_registers_self, Machine.set_registers_of_ne _ _ (by decide), hsp']
  have hmemory₁ : ((m.set .bp (m.loadSp 8)).set .sp
      ((m.set .bp (m.loadSp 8)).registers .sp + 8)).memory = m.memory := rfl
  generalize (m.set .bp (m.loadSp 8)).set .sp ((m.set .bp (m.loadSp 8)).registers .sp + 8) = m₁
    at hbp₁ hsp₁ hmemory₁ ⊢
  rw [hbind (by rw [onStack_iff, hsp₁]; omega)]
  have hpiece₂ : ({ m₁ with pieceIndex := ((m₁.loadSp 4).setWidth 32).toInt }.set .sp
      (m₁.registers .sp + 4)).pieceIndex = frame.pieceIndex := by
    rw [Machine.set_pieceIndex, Machine.loadSp, hmemory₁, hsp₁, hrecorded.pieceIndex]
  have hbp₂ : ({ m₁ with pieceIndex := ((m₁.loadSp 4).setWidth 32).toInt }.set .sp
      (m₁.registers .sp + 4)).registers .bp = frame.bp := by
    rw [Machine.set_registers_of_ne _ _ (by decide), hbp₁]
  have hsp₂ : ({ m₁ with pieceIndex := ((m₁.loadSp 4).setWidth 32).toInt }.set .sp
      (m₁.registers .sp + 4)).registers .sp = frame.record + 8 + 4 := by
    rw [Machine.set_registers_self, hsp₁]
  have hmemory₂ : ({ m₁ with pieceIndex := ((m₁.loadSp 4).setWidth 32).toInt }.set .sp
      (m₁.registers .sp + 4)).memory = m.memory := hmemory₁
  generalize { m₁ with pieceIndex := ((m₁.loadSp 4).setWidth 32).toInt }.set .sp
    (m₁.registers .sp + 4) = m₂ at hpiece₂ hbp₂ hsp₂ hmemory₂ ⊢
  rw [hbind (by rw [onStack_iff, hsp₂]; omega)]
  have hsp₃ : ((m₂.set .pc (((m₂.loadSp 4).setWidth 32).signExtend 64)).set .sp
      ((m₂.set .pc (((m₂.loadSp 4).setWidth 32).signExtend 64)).registers .sp + 4)).registers .sp =
      frame.sp := by
    rw [Machine.set_registers_self, Machine.set_registers_of_ne _ _ (by decide), hsp₂, hend]
  refine ⟨_, checkStack_of_onStack ?_, Frame.ext ?_ hpiece₂ ?_ hsp₃, hmemory₂⟩
  · rw [hsp₃, onStack_iff]
    omega
  · dsimp only [Frame.ofMachine]
    rw [Machine.set_registers_of_ne _ _ (by decide), Machine.set_registers_self, Machine.loadSp,
      hmemory₂, hsp₂, hrecorded.pc]
  · dsimp only [Frame.ofMachine]
    rw [Machine.set_registers_of_ne _ _ (by decide), Machine.set_registers_of_ne _ _ (by decide),
      hbp₂]

theorem returns_of_ret (h : vm.ret m = .ok m') :
    m.registers .sp ≠ vm.top ∧ m.registers .sp = m.registers .bp := by
  unfold ret at h
  split at h
  · cases h
  · next hnottop =>
      split at h
      · cases h
      · next heq => exact ⟨hnottop, (not_not.mp heq).symm⟩

/-- A return takes the first record away. -/
theorem chained_ret (hchained : vm.Chained m.memory (m.registers .bp) frames)
    (h : vm.ret m = .ok m') : vm.Chained m'.memory (m'.registers .bp) frames.tail := by
  obtain ⟨hnottop, hsp⟩ := returns_of_ret h
  cases frames with
  | nil => exact absurd (hsp.trans hchained) hnottop
  | cons frame frames =>
      obtain ⟨m₁, hret, hframe, hmemory⟩ := ret_eq_ok hchained hsp
      rw [h] at hret
      cases hret
      have hbp : m'.registers .bp = frame.bp := congrArg Frame.bp hframe
      rw [hmemory, hbp]
      exact hchained.2.2.2.2

/-! ## Rounds -/

theorem getPiece_bounds (hsized : vm.IntSized) {index : ℤ} {cells : List Cell}
    (h : vm.getPiece index = some cells) :
    (0 ≤ index ∧ index < 2 ^ 31) ∧ cells.length < 2 ^ 31 := by
  unfold getPiece at h
  split at h
  · cases h
  · have hlt := (List.getElem?_eq_some_iff.mp h).1
    have hpieces := hsized.pieces
    exact ⟨by omega, hsized.cells cells (List.mem_of_getElem? h)⟩

/-- The program counter and the piece of an instruction fit into an `int`. -/
theorem fetch_bounds (hsized : vm.IntSized) {inst : Instruction} {next : Machine}
    (h : vm.fetch m = some (inst, imm, next)) :
    (next.registers .pc).toNat < 2 ^ 31 ∧ 0 ≤ next.pieceIndex ∧ next.pieceIndex < 2 ^ 31 := by
  unfold fetch at h
  obtain ⟨instructions, hpiece, h⟩ := Option.bind_eq_some_iff.mp h
  obtain ⟨hindex, hlength⟩ := getPiece_bounds hsized hpiece
  have hsucc : ∀ {pc : BitVec 64}, pc.toNat < instructions.length →
      (pc + 1).toNat = pc.toNat + 1 :=
    fun hlt => toNat_add_of_lt (by change _ + 1 < _; omega)
  split at h
  · next hcell =>
      have hpc := (List.getElem?_eq_some_iff.mp hcell).1
      dsimp only at h
      split at h
      · split at h
        · next hvalue =>
            have hvalue := (List.getElem?_eq_some_iff.mp hvalue).1
            cases h
            refine ⟨?_, hindex⟩
            rw [Machine.set_registers_self, Machine.set_registers_self, hsucc (by rwa [hsucc hpc]),
              hsucc hpc]
            omega
        · cases h
      · cases h
        refine ⟨?_, hindex⟩
        rw [Machine.set_registers_self, hsucc hpc]
        omega
  · cases h

theorem frame_of_fetch {inst : Instruction} {next : Machine}
    (h : vm.fetch m = some (inst, imm, next)) :
    next.registers .bp = m.registers .bp ∧ next.registers .sp = m.registers .sp ∧
      next.memory = m.memory := by
  have hset : ∀ (m : Machine) (value : BitVec 64), (m.set .pc value).registers .bp =
      m.registers .bp ∧ (m.set .pc value).registers .sp = m.registers .sp :=
    fun m value => ⟨Machine.set_registers_of_ne m value (by decide),
      Machine.set_registers_of_ne m value (by decide)⟩
  unfold fetch at h
  obtain ⟨instructions, -, h⟩ := Option.bind_eq_some_iff.mp h
  split at h
  · dsimp only at h
    split at h
    · split at h
      · cases h
        exact ⟨(hset _ _).1.trans (hset _ _).1, (hset _ _).2.trans (hset _ _).2, rfl⟩
      · cases h
    · cases h
      exact ⟨(hset _ _).1, (hset _ _).2, rfl⟩
  · cases h

/-- The records of the unfinished calls are chained in every round. -/
theorem chained_step (hsized : vm.IntSized) {s s' : Nesting}
    (hchained : vm.Chained s.machine.memory (s.machine.registers .bp) s.frames)
    (hstep : vm.nesting.step s s') (hrecords : vm.SparesRecords s s') (hbase : vm.SparesBase s s') :
    vm.Chained s'.machine.memory (s'.machine.registers .bp) s'.frames := by
  obtain ⟨hrun, hframes⟩ := hstep
  rcases vm.step_eq s.machine with ⟨inst, imm, next, hfetch, hexec⟩ | ⟨stop, herror⟩
  · rw [hexec] at hrun
    obtain ⟨hbp, hsp, hmemory⟩ := frame_of_fetch hfetch
    obtain ⟨hpc, hpiece⟩ := fetch_bounds hsized hfetch
    rw [hframes, unfinished, hfetch]
    by_cases hframing : Framing inst imm
    · rw [← hmemory, ← hbp] at hchained
      rcases hframing with ⟨rfl, hpos⟩ | rfl
      · have hnotneg : ¬ imm < 0 := Int.not_lt.mpr hpos
        have hle := hrecords.calls imm next hfetch hpos
        rw [← hbp, ← hsp] at hle
        simp only [execute, if_neg hnotneg] at hrun
        dsimp only
        rw [if_neg hnotneg]
        exact chained_call hchained hle hpc hpiece hrun
      · exact chained_ret hchained hrun
    · have hsame : vm.Chained s'.machine.memory (s'.machine.registers .bp) s.frames := by
        rw [hbase inst imm next hfetch hframing]
        exact chained_congr hchained (hrecords.records inst imm next hfetch hframing)
      cases inst with
      | call =>
          have hneg : imm < 0 := by
            by_contra hnot
            exact hframing (.inl ⟨rfl, Int.not_lt.mp hnot⟩)
          dsimp only
          rwa [if_pos hneg]
      | ret => exact absurd (.inr rfl) hframing
      | _ => exact hsame
  · rw [herror] at hrun
    cases hrun

/-- Careful runs: those in which the records and the base pointer are left to the calls. -/
theorem chained_of_reachable (hsized : vm.IntSized) {s : Nesting}
    (h : (vm.nesting.restrict fun s s' => vm.SparesRecords s s' ∧ vm.SparesBase s s').Reachable s) :
    vm.Chained s.machine.memory (s.machine.registers .bp) s.frames := by
  refine @Transition.Reachable.invariant _ _ (fun s : Nesting =>
    vm.Chained s.machine.memory (s.machine.registers .bp) s.frames) ?_ ?_ s h
  · rintro s ⟨-, hbp, hframes⟩
    rw [hframes]
    exact hbp
  · rintro s s' hchained ⟨hstep, hrecords, hbase⟩
    exact chained_step hsized hchained hstep hrecords hbase

theorem nested_of_chained {s : Nesting}
    (h : vm.Chained s.machine.memory (s.machine.registers .bp) s.frames) : vm.Nested s := by
  have hchain : chain s = s.frames.map Frame.record ++ [vm.top] := follow_eq_of_chained h
  refine ⟨hchain, ?_, ?_⟩
  · rw [hchain]
    exact increasing_of_chained h
  · intro frame frames imm next hframes hfetch hsp
    obtain ⟨hbp', hsp', hmemory⟩ := frame_of_fetch hfetch
    rw [hframes, ← hmemory, ← hbp'] at h
    obtain ⟨m, hret, hframe, -⟩ := ret_eq_ok h (by rw [hbp', hsp', hsp])
    exact ⟨m, (vm.step_of_fetch hfetch).trans hret, hframe⟩

/-- At the top of the stack there is no record that the stack pointer is not behind. -/
theorem frames_eq_nil_of_chained (h : vm.Chained mem bp frames) (hle : vm.top.toNat ≤ bp.toNat) :
    frames = [] := by
  cases frames with
  | nil => rfl
  | cons frame frames =>
      obtain ⟨hbp, -, ⟨hsp, -⟩, hle', hrest⟩ := h
      have htop := (chained_bounds hrest).1
      have hrecord := (toNat_record hsp).1
      rw [hbp] at hle
      omega

/-! ## The end of the run -/

theorem finished_of_ret (h : vm.ret m = .error .finished) : m.registers .sp = vm.top := by
  unfold ret at h
  split at h
  · next htop => exact htop
  · split at h
    · cases h
    · dsimp only [bind, Except.bind] at h
      split at h
      · next hcheck =>
          rw [eq_stackOverflow hcheck] at h
          cases h
      · split at h
        · next hcheck =>
            rw [eq_stackOverflow hcheck] at h
            cases h
        · cases eq_stackOverflow h

theorem call_ne_finished : vm.call m imm ≠ .error .finished := by
  intro h
  dsimp only [call, bind, Except.bind] at h
  split at h
  · next hcheck =>
      rw [eq_stackOverflow hcheck] at h
      cases h
  · split at h
    · next hcheck =>
        rw [eq_stackOverflow hcheck] at h
        cases h
    · split at h
      · next hcheck =>
          rw [eq_stackOverflow hcheck] at h
          cases h
      · cases h

/-- Only a return at the top of the stack is the normal end. -/
theorem finished_of_execute {inst : Instruction} (h : vm.execute m imm inst = .error .finished) :
    inst = .ret ∧ m.registers .sp = vm.top := by
  cases inst with
  | ret => exact ⟨rfl, finished_of_ret h⟩
  | halt | nop | movRR | and | or | not | compare | li | dataptr | jmp | jz => cases h
  | cast op0 type => cases type <;> cases h
  | movMR | movMRDisp =>
      simp only [execute, movMR] at h
      split at h <;> cases h
  | movRM | movRMDisp =>
      simp only [execute, movRM] at h
      split at h <;> cases h
  | push op0 =>
      dsimp only [execute, bind, Except.bind] at h
      split at h
      · next hcheck =>
          rw [eq_stackOverflow hcheck] at h
          cases h
      · cases h
  | pop op0 => cases eq_stackOverflow h
  | incr op0 op1 op2 =>
      simp only [execute] at h
      split at h
      · cases eq_stackOverflow h
      · cases h
  | call =>
      simp only [execute] at h
      split at h
      · cases h
      · exact absurd h call_ne_finished
  | memzero op0 op1 =>
      simp only [execute] at h
      split at h <;> cases h
  | arithmetic op op0 op1 isFloat =>
      cases isFloat with
      | true => cases h
      | false =>
          simp only [execute] at h
          split at h <;> cases h

theorem haltsInMain_of_chained {s : Nesting}
    (h : vm.Chained s.machine.memory (s.machine.registers .bp) s.frames)
    (hle : (s.machine.registers .sp).toNat ≤ (s.machine.registers .bp).toNat) :
    vm.HaltsInMain s := by
  intro hfinished
  cases hfetch : vm.fetch s.machine with
  | none =>
      rcases vm.step_of_fetch_none hfetch with hstop | hstop
      · rw [hstop] at hfinished
        cases hfinished
      · rw [hstop] at hfinished
        cases hfinished
  | some fetched =>
      obtain ⟨inst, imm, next⟩ := fetched
      rw [vm.step_of_fetch hfetch] at hfinished
      obtain ⟨rfl, hsp⟩ := finished_of_execute hfinished
      rw [(frame_of_fetch hfetch).2.1] at hsp
      rw [hsp] at hle
      exact ⟨⟨imm, next, rfl⟩, frames_eq_nil_of_chained h hle⟩

/-- In every run in which the records and the base pointer are left to the calls, the calls
nest; and the run ends in `main` if the stack pointer is not behind the base pointer. -/
theorem nested_of_reachable (hsized : vm.IntSized) {s : Nesting}
    (h : (vm.nesting.restrict fun s s' => vm.SparesRecords s s' ∧ vm.SparesBase s s').Reachable s) :
    vm.Nested s ∧ ((s.machine.registers .sp).toNat ≤ (s.machine.registers .bp).toNat →
      vm.HaltsInMain s) := by
  have hchained := chained_of_reachable hsized h
  exact ⟨nested_of_chained hchained, haltsInMain_of_chained hchained⟩

end Proofs

/-! ## Small programs -/

/-- A round and the frames behind it; the machine stays as it is at the end of the run. -/
def advance (vm : VirtualMachine) (s : Nesting) : Nesting where
  machine :=
    match vm.step s.machine with
    | .ok m => m
    | .error _ => s.machine
  frames := vm.unfinished s

theorem nesting_step_advance {vm : VirtualMachine} {s : Nesting}
    (h : (vm.step s.machine).toOption.isSome = true) : vm.nesting.step s (vm.advance s) := by
  refine ⟨?_, rfl⟩
  unfold advance
  cases hstep : vm.step s.machine with
  | ok m => rfl
  | error stop =>
      rw [hstep] at h
      cases h

theorem reachable_advance {vm : VirtualMachine} {ok : Nesting → Nesting → Prop} {s : Nesting}
    (h : (vm.nesting.restrict ok).Reachable s)
    (hstep : (vm.step s.machine).toOption.isSome = true) (hok : ok s (vm.advance s)) :
    (vm.nesting.restrict ok).Reachable (vm.advance s) :=
  h.tail (And.intro (nesting_step_advance hstep) hok)

def begin (vm : VirtualMachine) : Nesting := { machine := startMachine vm }

theorem reachable_begin (vm : VirtualMachine) (ok : Nesting → Nesting → Prop) :
    (vm.nesting.restrict ok).Reachable (begin vm) :=
  Transition.Reachable.start ⟨rfl, rfl, rfl⟩

/-- `fun main() { f(); } fun f() {}` -/
def callPieces : VirtualMachine := ofPieces [[.inst .call, .imm 2, .inst .ret], [.inst .ret]]

theorem callPieces_sized : callPieces.IntSized := ⟨by decide, by decide⟩

/-- In the function. -/
theorem nested_callPieces : callPieces.Nested (callPieces.advance (begin callPieces)) ∧
    (((callPieces.advance (begin callPieces)).machine.registers .sp).toNat ≤
      ((callPieces.advance (begin callPieces)).machine.registers .bp).toNat →
        callPieces.HaltsInMain (callPieces.advance (begin callPieces))) := by
  refine nested_of_reachable callPieces_sized (reachable_advance (reachable_begin _ _)
    (by decide +kernel) ⟨⟨?_, ?_⟩, ?_⟩)
  · exact fun _ _ _ _ => Nat.le_refl _
  · exact fun _ _ _ _ _ frame hmem => absurd hmem List.not_mem_nil
  · intro inst imm next hfetch hnot
    cases hfetch
    exact absurd (.inl ⟨rfl, by decide⟩) hnot

/-- `main` writes the base pointer. -/
def basePieces : VirtualMachine := ofPieces [[.inst (.li .bp), .imm 0, .inst .ret]]

/-- The function takes its own record from the stack. -/
def unwindPieces : VirtualMachine :=
  ofPieces [[.inst .call, .imm 2, .inst .ret], [.inst (.incr .sp 16 0), .inst .ret]]

theorem reachable_basePieces : (basePieces.nesting.restrict fun s s' =>
    basePieces.SparesRecords s s').Reachable (basePieces.advance (begin basePieces)) := by
  refine reachable_advance (reachable_begin _ _) (by decide +kernel) ⟨?_, ?_⟩
  · intro imm next hfetch
    cases hfetch
  · exact fun _ _ _ _ _ frame hmem => absurd hmem List.not_mem_nil

theorem reachable_unwindPieces : (unwindPieces.nesting.restrict fun s s' =>
    unwindPieces.SparesRecords s s' ∧ unwindPieces.SparesBase s s').Reachable
      (unwindPieces.advance (unwindPieces.advance (begin unwindPieces))) := by
  refine reachable_advance (reachable_advance (reachable_begin _ _) (by decide +kernel)
    ⟨⟨?_, ?_⟩, ?_⟩) (by decide +kernel) ⟨⟨?_, ?_⟩, ?_⟩
  · exact fun _ _ _ _ => Nat.le_refl _
  · exact fun _ _ _ _ _ frame hmem => absurd hmem List.not_mem_nil
  · intro inst imm next hfetch hnot
    cases hfetch
    exact absurd (.inl ⟨rfl, by decide⟩) hnot
  · intro imm next hfetch
    cases hfetch
  · intro inst imm next hfetch hnot frame hmem i hi
    rfl
  · intro inst imm next hfetch hnot
    rfl

/-- A base pointer that is written is followed, and a run ends in any function that returns at
the top of the stack. -/
theorem not_nested :
    (¬ ∀ (vm : VirtualMachine) (s : Nesting), vm.IntSized →
      (vm.nesting.restrict fun s s' => vm.SparesRecords s s').Reachable s → vm.Nested s) ∧
    ¬ ∀ (vm : VirtualMachine) (s : Nesting), vm.IntSized →
      (vm.nesting.restrict fun s s' => vm.SparesRecords s s' ∧ vm.SparesBase s s').Reachable s →
        vm.HaltsInMain s := by
  constructor
  · intro hall
    have hnested := hall basePieces _ ⟨by decide, by decide⟩ reachable_basePieces
    have hchain := hnested.chain_eq
    have hhead : (0 : BitVec 64) = basePieces.top := List.head_eq_of_cons_eq hchain
    exact absurd hhead (by decide)
  · intro hall
    have hhalts := hall unwindPieces _ ⟨by decide, by decide⟩ reachable_unwindPieces rfl
    exact absurd hhalts.2 (List.cons_ne_nil _ _)

end VirtualMachine

end TinCompiler
