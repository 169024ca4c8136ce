import TinCompiler.Expressions.Stack
import TinCompiler.Machine.Growth
import TinCompiler.Machine.StraightLine

/-!
# Implicit casts

`performCast` tests `rtype` against the constant `TYPE_BOOL`, which is true, so an `int`, a
`char` or a `bool` is cast to every type without any code.  `castsCorrectly_iff` says that it
does what it should for all other pairs of types, and for these with an `int`, a `char` or a
`bool` as the target.
-/

namespace TinCompiler

/-- The pairs of types between which values are converted. -/
inductive Castable : TypeId → TypeId → Prop where
  | same (type : TypeId) : Castable type type
  | pointers {ltype rtype : TypeId} (hl : ltype.pointerLevel > 0) (hr : rtype.pointerLevel > 0) :
      Castable ltype rtype
  | integers {ltype rtype : TypeId} (hl : IsSmallInteger ltype) (hr : IsSmallInteger rtype) :
      Castable ltype rtype
  | intToFloat : Castable .int .float
  | floatToInt : Castable .float .int

/-- The slots of a value, the one on the top first. -/
def slotsAt (m : Machine) (sp n : ℕ) : List (BitVec 64) :=
  (List.range n).map fun i => m.memory.load (sp + 8 * i) 8

/-- The bytes that a pop of a value of this size stores. -/
def stored (size : ℕ) (slot : BitVec 64) : ℕ := slot.toNat % 2 ^ (8 * size)

/-- A slot that a push of a value leaves: in the four low bytes there is only the value. -/
def IsSlot (size : ℕ) (slot : BitVec 64) : Prop := slot.toNat % 2 ^ 32 < 2 ^ (8 * size)

/-- The value in `slots'` is the one in `slots`, converted.  Integers keep their value modulo
what the size of the target can hold. -/
def Corresponds (host : Host) (ast : AST) (ltype rtype : TypeId)
    (slots slots' : List (BitVec 64)) : Prop :=
  if ltype = rtype ∨ (ltype.pointerLevel > 0 ∧ rtype.pointerLevel > 0) then slots' = slots
  else ∃ slot slot', slots = [slot] ∧ slots' = [slot'] ∧
    (IsSlot (ast.sizeOfType ltype) slot →
      stored (ast.sizeOfType rtype) slot' =
        if ltype = .int ∧ rtype = .float then (host.intToFloat (slot.setWidth 32)).toNat
        else if ltype = .float ∧ rtype = .int then (host.floatToInt (slot.setWidth 32)).toNat
        else stored (ast.sizeOfType ltype) slot % 2 ^ (8 * ast.sizeOfType rtype))

/-- The code that `ops` has become, run from the same machine, leaves the converted value in the
place of the old one. -/
structure Converts (vm : VirtualMachine) (ast : AST) (ltype rtype : TypeId) (ops ops' : List Op) :
    Prop where
  count : ast.slots rtype = ast.slots ltype
  run : ∀ m₀ m sp, vm.runOps ops m₀ = .ok m → vm.StackAt m sp →
    sp + 8 * ast.slots ltype ≤ vm.stack + vm.stackMax →
    ∃ m', vm.runOps ops' m₀ = .ok m' ∧ vm.StackAt m' sp ∧
      Corresponds vm.host ast ltype rtype (slotsAt m sp (ast.slots ltype))
        (slotsAt m' sp (ast.slots rtype)) ∧
      (∀ a, a < sp ∨ sp + 8 * ast.slots ltype ≤ a → m'.memory a = m.memory a) ∧
      m'.registers .bp = m.registers .bp

/-- What is accepted can be cast, and is converted. -/
def CastsCorrectly (vm : VirtualMachine) (ltype rtype : TypeId) : Prop :=
  ∀ c : GeneratorContext, c.ast.HasPrimitives → (performCast ltype rtype c).1 = true →
    Castable ltype rtype ∧
    ∀ ops, Assembles c.piece ops → ∃ ops', Assembles (performCast ltype rtype c).2.piece ops' ∧
      Converts vm c.ast ltype rtype ops ops'

/-! ## The code -/

section Code

variable {vm : VirtualMachine} {m : Machine} {sp : ℕ}

theorem slotsAt_one (m : Machine) (sp : ℕ) : slotsAt m sp 1 = [m.memory.load sp 8] := by
  simp [slotsAt]

/-- What `INST_CAST` makes of a register. -/
def castValue (host : Host) (castType : CastType) (value : BitVec 64) : BitVec 64 :=
  VirtualMachine.setLow value (match castType with
    | .intFloat => host.intToFloat (value.setWidth 32)
    | .floatInt => host.floatToInt (value.setWidth 32))

/-- A value in a register is cast and pushed. -/
theorem runOps_cast_push (castType : CastType) (h : vm.StackAt m (sp + 8))
    (hlow : vm.stack ≤ sp) :
    ∃ m', vm.runOps [⟨.cast .a castType, none⟩, ⟨.push .a, none⟩] m = .ok m' ∧
      vm.StackAt m' sp ∧ m'.memory = m.memory.store sp 8 (castValue vm.host castType (m.registers .a)) ∧
      m'.registers .bp = m.registers .bp := by
  obtain ⟨m₁, hcast, hvalue, hsame, hmemory⟩ :=
    VirtualMachine.runOps_set vm m ⟨.cast .a castType, none⟩ .a
      (castValue vm.host castType (m.registers .a)) [⟨.push .a, none⟩] fun pc => by
        have ha : (m.set .pc pc).registers .a = m.registers .a :=
          Machine.set_registers_of_ne _ _ (by decide)
        cases castType <;> simp only [VirtualMachine.execute, castValue, ha]
  have hat : vm.StackAt m₁ (sp + 8) := h.of_eq (hsame .sp (by decide) (by decide))
  obtain ⟨m', hpush, hstack, hsame', hmemory'⟩ :=
    VirtualMachine.runOps_push .a [] hat (by omega) (by decide) (by decide)
  refine ⟨m', by rw [hcast, hpush]; rfl, hstack, ?_, ?_⟩
  · rw [hmemory', hmemory, hvalue, Nat.add_sub_cancel]
  · rw [hsame' .bp (by decide) (by decide), hsame .bp (by decide) (by decide)]

/-- The machine in front of a push. -/
theorem push_inv {reg : Register} {m' : Machine} {pc : BitVec 64} {imm : ℤ} (hsp : reg ≠ .sp)
    (hpc : reg ≠ .pc) (hexec : vm.execute (m.set .pc pc) imm (.push reg) = .ok m')
    (h : vm.StackAt m' sp) (hused : sp + 8 ≤ vm.stack + vm.stackMax) :
    vm.StackAt m (sp + 8) ∧ m'.memory = m.memory.store sp 8 (m.registers reg) ∧
      VirtualMachine.SameExcept [.sp] m m' ∧ m'.allocations = m.allocations := by
  simp only [VirtualMachine.execute, VirtualMachine.checkStack] at hexec
  split at hexec
  · have hm' := (Except.ok.inj hexec).symm
    have hmoved : m'.registers .sp = m.registers .sp - 8 := by
      rw [hm']
      rfl
    have hlow := h.low
    have hsame : VirtualMachine.SameExcept [.sp] m m' := by
      intro other hother hne
      rw [hm']
      exact (Machine.set_registers_of_ne _ _ (by simpa using hne)).trans
        (Machine.set_registers_of_ne _ _ hother)
    refine ⟨⟨?_, by omega, hused⟩, ?_, hsame, by rw [hm']; rfl⟩
    · have hadd : BitVec.ofNat 64 (sp + 8) = BitVec.ofNat 64 sp + 8 :=
        (VirtualMachine.ofNat_add sp 8).symm
      rw [hadd, ← h.register, hmoved, BitVec.sub_add_cancel]
    · have hvalue : ((m.set .pc pc).set .sp (m.registers .sp - 8)).registers reg =
          m.registers reg := by
        rw [Machine.set_registers_of_ne _ _ hsp, Machine.set_registers_of_ne _ _ hpc]
      rw [← h.toNat, hmoved, hm', ← hvalue]
      rfl
  · cases hexec

theorem runOps_pop_allocations {reg : Register} {m' : Machine}
    (h : vm.runOps [⟨.pop reg, none⟩] m = .ok m') : m'.allocations = m.allocations := by
  simp only [VirtualMachine.runOps, VirtualMachine.execute] at h
  cases hcheck : vm.checkStack _ with
  | error stop => rw [hcheck] at h; cases h
  | ok m₁ =>
      rw [hcheck] at h
      obtain rfl : m₁ = m' := Except.ok.inj h
      rw [VirtualMachine.checkStack_eq_ok hcheck]
      rfl

/-- The last operation pushed the register, or the value is popped into it again. -/
theorem runOps_popOp (reg : Register) {ops : List Op} {m₀ : Machine} (hsp : reg ≠ .sp)
    (hpc : reg ≠ .pc) (hrun : vm.runOps ops m₀ = .ok m) (h : vm.StackAt m sp)
    (hused : sp + 8 ≤ vm.stack + vm.stackMax) :
    ∃ m₁, vm.runOps (Op.popOp reg ops) m₀ = .ok m₁ ∧ vm.StackAt m₁ (sp + 8) ∧
      m₁.registers reg = m.memory.load sp 8 ∧ VirtualMachine.SameExcept [reg, .sp] m m₁ ∧
      m₁.allocations = m.allocations ∧
      ∀ a, a < sp ∨ sp + 8 ≤ a → m₁.memory a = m.memory a := by
  rcases popOp_cases reg ops with ⟨init, op, rfl, hpush, hpop⟩ | hpop
  · rw [VirtualMachine.runOps_append] at hrun
    cases hinit : vm.runOps init m₀ with
    | error stop => rw [hinit] at hrun; cases hrun
    | ok m₁ =>
        rw [hinit] at hrun
        change (vm.execute (m₁.set .pc _) _ op.inst).bind (vm.runOps []) = .ok m at hrun
        rw [hpush] at hrun
        cases hexec : vm.execute (m₁.set .pc (m₁.registers .pc + BitVec.ofNat 64 op.cells.length))
            (op.imm.getD 0) (.push reg) with
        | error stop => rw [hexec] at hrun; cases hrun
        | ok m' =>
            rw [hexec] at hrun
            obtain rfl : m' = m := Except.ok.inj hrun
            obtain ⟨hstack, hmemory, hsame, halloc⟩ := push_inv hsp hpc hexec h hused
            refine ⟨m₁, by rw [hpop]; exact hinit, hstack, ?_, fun other hother hne => ?_,
              halloc.symm, fun a ha => ?_⟩
            · rw [hmemory, ByteMemory.load_store_word _ _ rfl]
            · exact (hsame other hother fun h => hne (List.mem_cons_of_mem _ h)).symm
            · rw [hmemory, ByteMemory.store_apply_of_not_mem (by omega)]
  · rw [hpop, VirtualMachine.runOps_append_of_ok _ hrun]
    obtain ⟨m₁, hpopped, hstack, hvalue, hsame, hmemory⟩ :=
      VirtualMachine.runOps_pop reg [] h hused hsp
    exact ⟨m₁, hpopped, hstack, hvalue, hsame, runOps_pop_allocations hpopped,
      fun a _ => by rw [hmemory]⟩

end Code

/-! ## What the code makes of the slots -/

section Slots

variable {vm : VirtualMachine} {ast : AST} {ltype rtype : TypeId} {ops : List Op}

/-- Without any code the slots have to be those of the target already. -/
theorem converts_nothing (hcount : ast.slots rtype = ast.slots ltype)
    (hsame : ∀ m sp, Corresponds vm.host ast ltype rtype (slotsAt m sp (ast.slots ltype))
      (slotsAt m sp (ast.slots ltype))) : Converts vm ast ltype rtype ops ops := by
  refine ⟨hcount, fun m₀ m sp hrun hstack _ => ⟨m, hrun, hstack, ?_, fun _ _ => rfl, rfl⟩⟩
  rw [hcount]
  exact hsame m sp

theorem stored_setLow (value : BitVec 64) (low : BitVec 32) :
    stored 4 (VirtualMachine.setLow value low) = low.toNat := by
  have hlow : (VirtualMachine.setLow value low).setWidth 32 = low := by
    apply BitVec.eq_of_getLsbD_eq
    intro i hi
    rw [BitVec.getLsbD_setWidth, VirtualMachine.setLow, BitVec.getLsbD_append]
    simp [hi]
  have htoNat := congrArg BitVec.toNat hlow
  rwa [BitVec.toNat_setWidth] at htoNat

/-- The value is popped, cast and pushed again. -/
theorem converts_cast (castType : CastType) (hl : ast.slots ltype = 1) (hr : ast.slots rtype = 1)
    (hvalue : ∀ slot, Corresponds vm.host ast ltype rtype [slot]
      [castValue vm.host castType slot]) :
    Converts vm ast ltype rtype ops
      (Op.popOp .a ops ++ [⟨.cast .a castType, none⟩, ⟨.push .a, none⟩]) := by
  refine ⟨hr.trans hl.symm, fun m₀ m sp hrun hstack hused => ?_⟩
  rw [hl] at hused
  obtain ⟨m₁, hpop, hstack₁, ha, hsame₁, -, hmemory₁⟩ :=
    runOps_popOp .a (by decide) (by decide) hrun hstack hused
  obtain ⟨m', hpush, hstack', hmemory, hbp⟩ := runOps_cast_push castType hstack₁ hstack.low
  refine ⟨m', (VirtualMachine.runOps_append_of_ok _ hpop).trans hpush, hstack', ?_, ?_,
    hbp.trans (hsame₁ .bp (by decide) (by decide))⟩
  · rw [hl, hr, slotsAt_one, slotsAt_one, hmemory, ByteMemory.load_store_word _ _ rfl, ha]
    exact hvalue _
  · intro a houtside
    rw [hl] at houtside
    rw [hmemory, ByteMemory.store_apply_of_not_mem (by omega)]
    exact hmemory₁ a houtside

theorem sizeOfType_int (hprim : ast.HasPrimitives) : ast.sizeOfType .int = 4 := by
  rw [AST.sizeOfType, if_neg (by decide), hprim.int_size]

theorem sizeOfType_byte (hprim : ast.HasPrimitives) {type : TypeId}
    (h : type = .char ∨ type = .bool) : ast.sizeOfType type = 1 := by
  rcases h with rfl | rfl <;>
  · rw [AST.sizeOfType, if_neg (by decide), AST.getType, hprim _ (by decide)]
    decide

theorem sizeOfType_float (hprim : ast.HasPrimitives) : ast.sizeOfType .float = 4 := by
  rw [AST.sizeOfType, if_neg (by decide), AST.getType, hprim _ (by decide)]
  decide

theorem sizeOfType_small (hprim : ast.HasPrimitives) {type : TypeId} (h : IsSmallInteger type) :
    ast.sizeOfType type = 4 ∨ ast.sizeOfType type = 1 := by
  rcases h with rfl | h
  · exact .inl (sizeOfType_int hprim)
  · exact .inr (sizeOfType_byte hprim h)

/-- The bytes of an integer that are stored hold its value. -/
theorem corresponds_small (hprim : ast.HasPrimitives) (hl : IsSmallInteger ltype)
    (hr : IsSmallInteger rtype) (slot : BitVec 64) :
    Corresponds vm.host ast ltype rtype [slot] [slot] := by
  have hfloat : ltype ≠ .float ∧ rtype ≠ .float := by
    constructor
    · rintro rfl
      exact absurd hl (by decide)
    · rintro rfl
      exact absurd hr (by decide)
  unfold Corresponds
  split
  · rfl
  · refine ⟨slot, slot, rfl, rfl, fun hslot => ?_⟩
    rw [if_neg fun h => hfloat.2 h.2, if_neg fun h => hfloat.1 h.1]
    unfold IsSlot at hslot
    unfold stored
    rcases sizeOfType_small hprim hl with hl | hl <;>
      rcases sizeOfType_small hprim hr with hr | hr <;>
      rw [hl] at hslot ⊢ <;> rw [hr] <;> omega

end Slots

/-! ## Which casts are correct -/

section Casts

variable {ltype rtype : TypeId}

/-- Which types are accepted; the branch from `int` to `float` is never taken. -/
theorem implicitCast_cases :
    (implicitCast ltype rtype = some none ∧ (ltype = rtype ∨
      (ltype.pointerLevel > 0 ∧ rtype.pointerLevel > 0) ∨ IsSmallInteger ltype)) ∨
    (implicitCast ltype rtype = some (some .floatInt) ∧ ltype = .float ∧ rtype = .int) ∨
    implicitCast ltype rtype = none := by
  unfold implicitCast
  split
  · next hsame => exact .inl ⟨rfl, .inl hsame⟩
  split
  · next hpointers => exact .inl ⟨rfl, .inr (.inl hpointers)⟩
  split
  · next hsmall => exact .inl ⟨rfl, .inr (.inr hsmall)⟩
  split
  · next hsmall htypes => exact absurd (.inl htypes.1) hsmall
  split
  · next htypes => exact .inr (.inl ⟨rfl, htypes.1, htypes.2⟩)
  · exact .inr (.inr rfl)

theorem performCast_accepted {conversion : Option CastType} (c : GeneratorContext)
    (h : implicitCast ltype rtype = some conversion) :
    performCast ltype rtype c = (true, c.withPiece (emitConversion conversion c.piece)) := by
  unfold performCast
  rw [h]
  rfl

theorem castsCorrectly_of_small (vm : VirtualMachine)
    (h : IsSmallInteger ltype → IsSmallInteger rtype) : CastsCorrectly vm ltype rtype := by
  intro c hprim haccepted
  rcases @implicitCast_cases ltype rtype with ⟨hcast, hwhy⟩ | ⟨hcast, rfl, rfl⟩ | hcast
  · rw [performCast_accepted c hcast]
    rcases hwhy with rfl | hpointers | hsmall
    · refine ⟨.same _, fun ops hasm => ⟨ops, hasm, converts_nothing rfl fun m sp => ?_⟩⟩
      rw [Corresponds, if_pos (.inl rfl)]
    · refine ⟨.pointers hpointers.1 hpointers.2, fun ops hasm =>
        ⟨ops, hasm, converts_nothing ?_ fun m sp => ?_⟩⟩
      · rw [AST.slots_of_pointer (Nat.ne_of_gt hpointers.1),
          AST.slots_of_pointer (Nat.ne_of_gt hpointers.2)]
      · rw [Corresponds, if_pos (.inr hpointers)]
    · refine ⟨.integers hsmall (h hsmall), fun ops hasm =>
        ⟨ops, hasm, converts_nothing ?_ fun m sp => ?_⟩⟩
      · rw [hprim.slots_of_small hsmall, hprim.slots_of_small (h hsmall)]
      · rw [hprim.slots_of_small hsmall, slotsAt_one]
        exact corresponds_small hprim hsmall (h hsmall) _
  · rw [performCast_accepted c hcast]
    refine ⟨.floatToInt, fun ops hasm =>
      ⟨_, ((hasm.emitPop .a).emit (.cast .a .floatInt)).emitPush .a, ?_⟩⟩
    rw [List.append_assoc]
    refine converts_cast .floatInt (hprim.slots (by decide) (by decide))
      (hprim.slots (by decide) (by decide)) fun slot => ?_
    rw [Corresponds, if_neg (by decide)]
    refine ⟨slot, _, rfl, rfl, fun _ => ?_⟩
    rw [sizeOfType_int hprim, castValue, stored_setLow, if_neg (by decide), if_pos (by decide)]
  · have hrejected : (performCast ltype rtype c).1 = false := by
      unfold performCast
      rw [hcast]
      rfl
    rw [hrejected] at haccepted
    cases haccepted

/-! ### An `int` as a `float` -/

/-- The operations are the ones that the cells show. -/
theorem flatten_injective : ∀ {ops ops' : List Op}, Op.flatten ops = Op.flatten ops' → ops = ops' := by
  intro ops
  induction ops with
  | nil =>
      intro ops' h
      cases ops' with
      | nil => rfl
      | cons op ops' =>
          obtain ⟨rest, hcells⟩ := op.head_cells
          rw [Op.flatten_cons, hcells] at h
          cases h
  | cons op ops ih =>
      intro ops' h
      cases ops' with
      | nil =>
          obtain ⟨rest, hcells⟩ := op.head_cells
          rw [Op.flatten_cons, hcells] at h
          cases h
      | cons op' ops' =>
          -- an immediate behind the instruction cannot be the head of the next operation
          have hhead (list : List Op) (value : ℤ) (tail : List Cell) :
              Op.flatten list ≠ .imm value :: tail := by
            cases list with
            | nil => exact fun h => nomatch h
            | cons next list =>
                obtain ⟨rest, hcells⟩ := next.head_cells
                rw [Op.flatten_cons, hcells]
                exact fun h => nomatch h
          obtain ⟨inst, imm⟩ := op
          obtain ⟨inst', imm'⟩ := op'
          rw [Op.flatten_cons, Op.flatten_cons] at h
          cases imm with
          | none =>
              cases imm' with
              | none =>
                  obtain ⟨hinst, hrest⟩ := List.cons.inj h
                  rw [Cell.inst.inj hinst, ih hrest]
              | some value => exact absurd (List.cons.inj h).2 (hhead _ _ _)
          | some value =>
              cases imm' with
              | none => exact absurd (List.cons.inj h).2.symm (hhead _ _ _)
              | some value' =>
                  obtain ⟨hinst, hrest⟩ := List.cons.inj h
                  obtain ⟨hvalue, hrest⟩ := List.cons.inj hrest
                  rw [Cell.inst.inj hinst, Cell.imm.inj hvalue, ih hrest]

/-- The code that pushes 1. -/
def pushesOne : List Op := [⟨.li .a, some 1⟩, ⟨.push .a, none⟩]

def contextOfOne : GeneratorContext where
  ast := AST.initial
  piece := (({} : BytecodePiece).emitLi .a 1).emitPush .a

theorem assembles_one : Assembles contextOfOne.piece pushesOne :=
  (assembles_empty.emitLi .a 1).emitPush .a

theorem runOps_one (vm : VirtualMachine) (hroom : 8 ≤ vm.stackMax) :
    ∃ m₀ m, vm.runOps pushesOne m₀ = .ok m ∧ vm.StackAt m (vm.stack + vm.stackMax - 8) ∧
      m.memory.load (vm.stack + vm.stackMax - 8) 8 = (1 : BitVec 64) := by
  let m₀ : Machine :=
    { registers := fun _ => BitVec.ofNat 64 (vm.stack + vm.stackMax), memory := fun _ => 0 }
  have hstack₀ : vm.StackAt m₀ (vm.stack + vm.stackMax) := ⟨rfl, by omega, le_refl _⟩
  obtain ⟨m₁, hli, hvalue, hsame, -⟩ :=
    VirtualMachine.runOps_set vm m₀ ⟨.li .a, some 1⟩ .a 1 [⟨.push .a, none⟩] fun pc => rfl
  have hstack₁ : vm.StackAt m₁ (vm.stack + vm.stackMax) :=
    hstack₀.of_eq (hsame .sp (by decide) (by decide))
  obtain ⟨m, hpush, hstack, -, hmemory⟩ :=
    VirtualMachine.runOps_push .a [] hstack₁ (by omega) (by decide) (by decide)
  refine ⟨m₀, m, by rw [pushesOne, hli, hpush]; rfl, hstack, ?_⟩
  rw [hmemory, ByteMemory.load_store_word _ _ rfl, hvalue]

theorem not_castsCorrectly_intToFloat (vm : VirtualMachine) (hroom : 8 ≤ vm.stackMax)
    (hfloat : vm.host.intToFloat 1 ≠ 1) : ¬ CastsCorrectly vm .int .float := by
  intro hcorrect
  obtain ⟨-, hconverts⟩ := hcorrect contextOfOne AST.initial_hasPrimitives rfl
  obtain ⟨ops', hasm, hconverts⟩ := hconverts pushesOne assembles_one
  obtain rfl : pushesOne = ops' :=
    flatten_injective (assembles_one.instructions.symm.trans hasm.instructions)
  obtain ⟨m₀, m, hrun, hstack, hslot⟩ := runOps_one vm hroom
  have hone (type : TypeId) (hlt : type.index < 5) (hvoid : type ≠ .void) :
      contextOfOne.ast.slots type = 1 := AST.initial_hasPrimitives.slots hlt hvoid
  obtain ⟨m', hrun', -, hcorresponds, -⟩ := hconverts.run m₀ m _ hrun hstack (by
    rw [hone .int (by decide) (by decide)]
    omega)
  obtain rfl : m = m' := Except.ok.inj (hrun.symm.trans hrun')
  rw [hone .int (by decide) (by decide), hone .float (by decide) (by decide), slotsAt_one, hslot,
    Corresponds, if_neg (by decide)] at hcorresponds
  obtain ⟨slot, slot', hold, hnew, hvalue⟩ := hcorresponds
  obtain rfl := List.singleton_inj.mp hold
  obtain rfl := List.singleton_inj.mp hnew
  have hslot : IsSlot (contextOfOne.ast.sizeOfType .int) 1 :=
    (by decide : (1 : BitVec 64).toNat % 2 ^ 32 < 2 ^ (8 * contextOfOne.ast.sizeOfType .int))
  have hone := hvalue hslot
  rw [if_pos ⟨rfl, rfl⟩] at hone
  exact hfloat (BitVec.eq_of_toNat_eq (hone.symm.trans (by decide)))

theorem performCast_of_small (hsmall : IsSmallInteger ltype) (c : GeneratorContext) :
    (performCast ltype rtype c).1 = true := by
  have haccepted : implicitCast ltype rtype = some none := by
    unfold implicitCast
    rw [if_pos hsmall, ite_self, ite_self]
  rw [performCast_accepted c haccepted]

end Casts

/-- Everything but the casts of an `int`, a `char` or a `bool` to another type is right. -/
theorem castsCorrectly_iff (vm : VirtualMachine) (hroom : 8 ≤ vm.stackMax)
    (hfloat : vm.host.intToFloat 1 ≠ 1) (ltype rtype : TypeId) :
    CastsCorrectly vm ltype rtype ↔ (IsSmallInteger ltype → IsSmallInteger rtype) := by
  refine ⟨fun hcorrect hsmall => ?_, castsCorrectly_of_small vm⟩
  obtain ⟨hcastable, -⟩ :=
    hcorrect contextOfOne AST.initial_hasPrimitives (performCast_of_small hsmall _)
  cases hcastable with
  | same => exact hsmall
  | pointers hl hr =>
      rcases hsmall with rfl | rfl | rfl <;> exact absurd hl (by decide)
  | integers hl hr => exact hr
  | intToFloat => exact absurd hcorrect (not_castsCorrectly_intToFloat vm hroom hfloat)
  | floatToInt => exact absurd hsmall (by decide)

/-- With the conversion of 1 as the processor does it. -/
def hostOfOne : Host := { Host.trivial with intToFloat := fun _ => 0x3f800000 }

theorem castsCorrectly_floatToInt :
    CastsCorrectly { VirtualMachine.ofPieces [] with host := hostOfOne } .float .int :=
  (castsCorrectly_iff _ (by decide) (by decide) _ _).mpr fun hsmall => absurd hsmall (by decide)

/-- A `bool` is accepted where a `char*` is needed. -/
theorem not_castsCorrectly : ¬ ∀ (vm : VirtualMachine) (ltype rtype : TypeId),
    CastsCorrectly vm ltype rtype := by
  intro hall
  obtain ⟨hcastable, -⟩ := hall (.ofPieces []) .bool (TypeId.char.setPointerLevel 1) contextOfOne
    AST.initial_hasPrimitives (performCast_of_small (.inr (.inr rfl)) _)
  cases hcastable with
  | pointers hl hr => exact absurd hl (by decide)
  | integers hl hr => exact absurd hr (by decide)

end TinCompiler
