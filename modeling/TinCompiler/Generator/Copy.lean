import TinCompiler.Generator.Context
import TinCompiler.Machine.AccessCheck
import TinCompiler.Machine.StraightLine
import TinCompiler.Structs.Leaves
import Mathlib.Data.Finset.Card

/-!
# Copying a value

`generatePush` pushes the leaves of a value in order, and `generatePop` pops them in the opposite
order.  The push of the last leaf and its pop cancel out, so the code is nested: between the load
and the store of a leaf those of the later leaves are executed (`copyCode`).
-/

namespace TinCompiler

variable {ast : AST}

/-- A scalar, a pointer, or a structure that is complete and holds only such types. -/
inductive CompleteType (ast : AST) : TypeId → Prop where
  | leaf {type : TypeId} : type.Valid → ast.structOf type = none →
      IsLeafSize (ast.sizeOfType type) → CompleteType ast type
  | struct {type : TypeId} {s : ℕ} : type.Valid → ast.structOf type = some s →
      (ast.structures s).complete = true →
      (∀ member ∈ (ast.structures s).members, CompleteType ast member.typeId) →
      CompleteType ast type

theorem CompleteType.valid {type : TypeId} (h : CompleteType ast type) : type.Valid := by
  cases h <;> assumption

theorem CompleteType.leafSize {type : TypeId} (h : CompleteType ast type) :
    ∀ fuel offset, ∀ leaf ∈ ast.leafList fuel offset type, IsLeafSize leaf.size := by
  induction h with
  | leaf _ hstruct hsize =>
      intro fuel offset leaf hleaf
      cases fuel with
      | zero => simp [AST.leafList] at hleaf
      | succ fuel =>
          simp only [AST.leafList, hstruct, List.mem_singleton] at hleaf
          rw [hleaf]
          exact hsize
  | struct _ hstruct _ _ ih =>
      intro fuel offset leaf hleaf
      cases fuel with
      | zero => simp [AST.leafList] at hleaf
      | succ fuel =>
          simp only [AST.leafList, hstruct, List.mem_flatMap] at hleaf
          obtain ⟨member, hmember, hleaf⟩ := hleaf
          exact ih member hmember fuel _ leaf hleaf

/-! ## Nesting -/

/-- The type with the first index holds by value one with the second. -/
def HoldsType (ast : AST) (i j : ℕ) : Prop :=
  ∃ s, (ast.typeInfos i).astStruct = some s ∧ ∃ member ∈ (ast.structures s).members,
    ast.structOf member.typeId ≠ none ∧ member.typeId.index = j

/-- What is held, directly or through others. -/
noncomputable def heldTypes (ast : AST) (i : ℕ) : Finset ℕ :=
  open Classical in (Finset.range ast.typesUsed).filter (Relation.TransGen (HoldsType ast) i)

/-- How deep structures are nested in the type. -/
noncomputable def nesting (ast : AST) (type : TypeId) : ℕ :=
  if ast.structOf type = none then 0 else (heldTypes ast type.index).card + 1

section Nesting

variable {type : TypeId} {s i j : ℕ}

theorem astStruct_of_structOf (h : ast.structOf type = some s) :
    (ast.typeInfos type.index).astStruct = some s := by
  unfold AST.structOf at h
  split at h
  · exact h
  · cases h

theorem index_lt_of_structOf (htable : TableInvariant ast) (h : ast.structOf type ≠ none) :
    type.index < ast.typesUsed := by
  obtain ⟨s, hs⟩ := Option.ne_none_iff_exists'.mp h
  exact htable.lt_typesUsed ((htable.owned s _).mpr (astStruct_of_structOf hs))

theorem CompleteType.acc (h : CompleteType ast type) (hstruct : ast.structOf type ≠ none) :
    Acc (fun j i => HoldsType ast i j) type.index := by
  induction h with
  | leaf _ hnone => exact absurd hnone hstruct
  | struct _ hsome _ _ ih =>
      refine Acc.intro _ fun j hj => ?_
      obtain ⟨s, hs, member, hmember, hheld, rfl⟩ := hj
      rw [astStruct_of_structOf hsome] at hs
      cases hs
      exact ih member hmember hheld

theorem not_transGen_of_acc (h : Acc (fun j i => HoldsType ast i j) i) :
    ¬ Relation.TransGen (HoldsType ast) i i := by
  intro hcycle
  have hacc := h.transGen
  have hswap : Relation.TransGen (fun j i => HoldsType ast i j) i i :=
    Relation.transGen_swap.mp hcycle
  clear h hcycle
  induction hacc with
  | intro i _ ih => exact ih i hswap hswap

theorem card_heldTypes_lt (htable : TableInvariant ast)
    (hacc : Acc (fun j i => HoldsType ast i j) i) (hholds : HoldsType ast i j) :
    (heldTypes ast j).card < (heldTypes ast i).card := by
  have hirrefl := not_transGen_of_acc (hacc.inv hholds)
  refine Finset.card_lt_card (Finset.ssubset_iff_subset_ne.mpr ⟨fun k hk => ?_, fun heq => ?_⟩)
  · simp only [heldTypes, Finset.mem_filter] at hk ⊢
    exact ⟨hk.1, .head hholds hk.2⟩
  · have hlt : j < ast.typesUsed := by
      obtain ⟨s, _, member, _, hheld, rfl⟩ := hholds
      exact index_lt_of_structOf htable hheld
    have hj : j ∈ heldTypes ast i := by
      simp only [heldTypes, Finset.mem_filter, Finset.mem_range]
      exact ⟨hlt, .single hholds⟩
    rw [← heq] at hj
    simp only [heldTypes, Finset.mem_filter] at hj
    exact hirrefl hj.2

/-- There are more types than levels of nesting. -/
theorem CompleteType.nesting_lt (h : CompleteType ast type) (htable : TableInvariant ast) :
    nesting ast type < ast.depth := by
  unfold nesting AST.depth
  split
  · exact Nat.succ_pos _
  · next hstruct =>
      have hlt := index_lt_of_structOf htable hstruct
      have hsubset : heldTypes ast type.index ⊆ (Finset.range ast.typesUsed).erase type.index := by
        intro k hk
        simp only [heldTypes, Finset.mem_filter] at hk
        refine Finset.mem_erase.mpr ⟨?_, hk.1⟩
        rintro rfl
        exact not_transGen_of_acc (h.acc hstruct) hk.2
      have hcard := Finset.card_le_card hsubset
      rw [Finset.card_erase_of_mem (Finset.mem_range.mpr hlt), Finset.card_range] at hcard
      omega

/-- From the depth of the type on the leaves are all there. -/
theorem CompleteType.leafList_eq (h : CompleteType ast type) (htable : TableInvariant ast) :
    ∀ {fuel fuel' offset : ℕ}, nesting ast type < fuel → nesting ast type < fuel' →
      ast.leafList fuel offset type = ast.leafList fuel' offset type := by
  induction h with
  | leaf _ hstruct =>
      intro fuel fuel' offset hfuel hfuel'
      obtain ⟨fuel, rfl⟩ := Nat.exists_eq_succ_of_ne_zero (by omega : fuel ≠ 0)
      obtain ⟨fuel', rfl⟩ := Nat.exists_eq_succ_of_ne_zero (by omega : fuel' ≠ 0)
      simp only [AST.leafList, hstruct]
  | @struct type s hvalid hstruct hcomplete hmembers ih =>
      intro fuel fuel' offset hfuel hfuel'
      have hacc : Acc (fun j i => HoldsType ast i j) type.index :=
        (CompleteType.struct hvalid hstruct hcomplete hmembers).acc (by simp [hstruct])
      have hnested : ∀ member ∈ (ast.structures s).members,
          nesting ast member.typeId < nesting ast type := by
        intro member hmember
        simp only [nesting, hstruct, reduceCtorEq, if_false]
        split
        · exact Nat.succ_pos _
        · next hheld =>
            have hholds : HoldsType ast type.index member.typeId.index :=
              ⟨s, astStruct_of_structOf hstruct, member, hmember, hheld, rfl⟩
            have := card_heldTypes_lt htable hacc hholds
            omega
      obtain ⟨fuel, rfl⟩ := Nat.exists_eq_succ_of_ne_zero (by omega : fuel ≠ 0)
      obtain ⟨fuel', rfl⟩ := Nat.exists_eq_succ_of_ne_zero (by omega : fuel' ≠ 0)
      simp only [AST.leafList, hstruct]
      refine List.flatMap_congr fun member hmember => ?_
      have := hnested member hmember
      exact ih member hmember (by omega) (by omega)

end Nesting

/-! ## The emitted code -/

section Emitted

variable (reg : Register) (offset : ℤ)

def loadLeaf (leaf : Leaf) : Op := Op.movRM .a reg leaf.size (offset + leaf.offset)

def storeLeaf (leaf : Leaf) : Op := Op.movMR reg .a leaf.size (offset + leaf.offset)

/-- The leaves are pushed in order. -/
def pushLeaves (leaves : List Leaf) : List Op :=
  leaves.flatMap fun leaf => [loadLeaf reg offset leaf, ⟨.push .a, none⟩]

/-- The last leaf of the list is popped first. -/
def popLeaves (leaves : List Leaf) (ops : List Op) : List Op :=
  leaves.foldr (fun leaf ops => Op.popOp .a ops ++ [storeLeaf reg offset leaf]) ops

variable {reg offset}

theorem generatePush_assembles (fuel : ℕ) : ∀ {start : ℕ} {type : TypeId} {piece : BytecodePiece}
    {ops : List Op}, Assembles piece ops →
    Assembles (generatePush ast reg fuel (offset + start) type piece)
      (ops ++ pushLeaves reg offset (ast.leafList fuel start type)) := by
  induction fuel with
  | zero =>
      intro start type piece ops h
      simpa [generatePush, AST.leafList, pushLeaves] using h
  | succ fuel ih =>
      intro start type piece ops h
      unfold generatePush AST.leafList
      cases ast.structOf type with
      | none =>
          simpa [pushLeaves, loadLeaf, List.append_assoc] using
            (h.emitMovRMDisp .a reg (ast.sizeOfType type) (offset + start)).emitPush .a
      | some s =>
          dsimp only
          generalize (ast.structures s).members = members
          induction members generalizing piece ops with
          | nil => simpa [pushLeaves] using h
          | cons member rest ihm =>
              have hfirst := @ih (start + member.offset) member.typeId piece ops h
              rw [Int.natCast_add, ← Int.add_assoc] at hfirst
              simpa [pushLeaves, List.append_assoc] using ihm hfirst

theorem popLeaves_append (first second : List Leaf) (ops : List Op) :
    popLeaves reg offset (first ++ second) ops =
      popLeaves reg offset first (popLeaves reg offset second ops) :=
  List.foldr_append

theorem generatePop_assembles (hreg : reg ≠ .invalid) {type : TypeId} (hcomplete : CompleteType ast type) :
    ∀ {fuel start : ℕ} {piece : BytecodePiece} {ops : List Op}, Assembles piece ops →
    Assembles (generatePop ast reg fuel (offset + start) type piece)
      (popLeaves reg offset (ast.leafList fuel start type) ops) := by
  induction hcomplete with
  | @leaf type hvalid hstruct _ =>
      intro fuel start piece ops h
      have hne : type ≠ .void := fun heq => TypeId.not_valid_iff.mpr heq hvalid
      cases fuel with
      | zero => simpa [generatePop, AST.leafList, popLeaves] using h
      | succ fuel =>
          simpa [generatePop, AST.leafList, popLeaves, hne, hstruct, hreg, storeLeaf] using
            (h.emitPop .a).emitMovMRDisp reg .a (ast.sizeOfType type) (offset + start)
  | @struct type s hvalid hstruct _ _ ih =>
      intro fuel start piece ops h
      have hne : type ≠ .void := fun heq => TypeId.not_valid_iff.mpr heq hvalid
      cases fuel with
      | zero => simpa [generatePop, AST.leafList, popLeaves] using h
      | succ fuel =>
          unfold generatePop AST.leafList
          simp only [hne, if_false, hstruct, List.foldl_reverse]
          generalize (ast.structures s).members = members at ih ⊢
          induction members with
          | nil => simpa [popLeaves] using h
          | cons member rest ihm =>
              have hrest := ihm fun other hmem => ih other (by simp [hmem])
              have hfirst := @ih member (by simp) fuel (start + member.offset) _ _ hrest
              rw [Int.natCast_add, ← Int.add_assoc] at hfirst
              rw [List.flatMap_cons, popLeaves_append]
              exact hfirst

end Emitted

/-- The code of a copy. -/
def copyCode (sreg dreg : Register) (soffset doffset : ℤ) : List Leaf → List Op
  | [] => []
  | [leaf] => [loadLeaf sreg soffset leaf, storeLeaf dreg doffset leaf]
  | leaf :: leaf' :: rest =>
      [loadLeaf sreg soffset leaf, ⟨.push .a, none⟩] ++
        copyCode sreg dreg soffset doffset (leaf' :: rest) ++
        [⟨.pop .a, none⟩, storeLeaf dreg doffset leaf]

theorem storeLeaf_inst_ne (reg : Register) (offset : ℤ) (leaf : Leaf) :
    (storeLeaf reg offset leaf).inst ≠ .push .a := by
  unfold storeLeaf Op.movMR
  split <;> exact nofun

theorem copyCode_ends (sreg dreg : Register) (soffset doffset : ℤ) (leaf : Leaf) (rest : List Leaf) :
    ∃ code, copyCode sreg dreg soffset doffset (leaf :: rest) =
      code ++ [storeLeaf dreg doffset leaf] := by
  cases rest with
  | nil => exact ⟨[loadLeaf sreg soffset leaf], rfl⟩
  | cons leaf' rest =>
      refine ⟨[loadLeaf sreg soffset leaf, ⟨.push .a, none⟩] ++
        copyCode sreg dreg soffset doffset (leaf' :: rest) ++ [⟨.pop .a, none⟩], ?_⟩
      rw [copyCode, List.append_assoc, List.append_assoc, List.append_assoc]
      rfl

/-- The pops of the pushed leaves. -/
theorem popLeaves_pushLeaves (sreg dreg : Register) (soffset doffset : ℤ) (leaves : List Leaf) :
    ∀ ops, popLeaves dreg doffset leaves (ops ++ pushLeaves sreg soffset leaves) =
      ops ++ copyCode sreg dreg soffset doffset leaves := by
  induction leaves with
  | nil => simp [popLeaves, pushLeaves, copyCode]
  | cons leaf rest ih =>
      intro ops
      have hpushed : ops ++ pushLeaves sreg soffset (leaf :: rest) =
          (ops ++ [loadLeaf sreg soffset leaf, ⟨.push .a, none⟩]) ++
            pushLeaves sreg soffset rest := by
        simp [pushLeaves, List.append_assoc]
      have hpopped (ops : List Op) : popLeaves dreg doffset (leaf :: rest) ops =
          Op.popOp .a (popLeaves dreg doffset rest ops) ++ [storeLeaf dreg doffset leaf] := rfl
      rw [hpushed, hpopped, ih]
      cases rest with
      | nil =>
          have hpop := Op.popOp_push .a (ops ++ [loadLeaf sreg soffset leaf])
          simp only [List.append_assoc, List.cons_append, List.nil_append] at hpop
          simp [copyCode, hpop]
      | cons leaf' rest =>
          obtain ⟨code, hcode⟩ := copyCode_ends sreg dreg soffset doffset leaf' rest
          rw [copyCode, hcode, ← List.append_assoc, ← List.append_assoc,
            Op.popOp_of_ne (storeLeaf_inst_ne dreg doffset leaf')]
          simp [List.append_assoc]

theorem loadLeaf_straight (reg : Register) (offset : ℤ) (leaf : Leaf) :
    (loadLeaf reg offset leaf).Straight := by
  unfold loadLeaf Op.movRM
  split <;> exact ⟨rfl, by simp [Instruction.Sequential]⟩

theorem storeLeaf_straight (reg : Register) (offset : ℤ) (leaf : Leaf) :
    (storeLeaf reg offset leaf).Straight := by
  unfold storeLeaf Op.movMR
  split <;> exact ⟨rfl, trivial⟩

theorem copyCode_straight (sreg dreg : Register)
    (soffset doffset : ℤ) : ∀ leaves : List Leaf,
    ∀ op ∈ copyCode sreg dreg soffset doffset leaves, op.Straight
  | [], op, hmem => by simp [copyCode] at hmem
  | [leaf], op, hmem => by
      simp only [copyCode, List.mem_cons, List.not_mem_nil, or_false] at hmem
      rcases hmem with rfl | rfl
      · exact loadLeaf_straight sreg soffset leaf
      · exact storeLeaf_straight dreg doffset leaf
  | leaf :: leaf' :: rest, op, hmem => by
      simp only [copyCode, List.mem_append, List.mem_cons, List.not_mem_nil, or_false] at hmem
      rcases hmem with ((rfl | rfl) | hmem) | rfl | rfl
      · exact loadLeaf_straight sreg soffset leaf
      · exact ⟨rfl, trivial⟩
      · exact copyCode_straight sreg dreg soffset doffset (leaf' :: rest) op hmem
      · exact ⟨rfl, by simp [Instruction.Sequential]⟩
      · exact storeLeaf_straight dreg doffset leaf

/-! ## The execution of a copy -/

section Execution

variable {vm : VirtualMachine} {m : Machine}

open VirtualMachine

theorem canAccessMemory_of_region {a size : ℕ} {region : ℕ × ℕ}
    (hmem : region ∈ vm.regions m) (hlow : region.1 ≤ a) (hhigh : a + size ≤ region.1 + region.2) :
    vm.canAccessMemory m (BitVec.ofNat 64 a) size = true := by
  refine (vm.canAccessMemory_iff m).mpr ⟨region, hmem, ?_⟩
  rw [inRange, ofNat_sub hlow, BitVec.ofInt_natCast, ofNat_add, BitVec.toNat_ofNat]
  refine decide_eq_true ?_
  have hmod := Nat.mod_le (a - region.1 + size) (2 ^ 64)
  omega

/-- The bytes of a leaf of a value that begins at `start` can be accessed, and they are not in the
free part of the stack. -/
structure AccessibleLeaf (vm : VirtualMachine) (m : Machine) (sp start : ℕ) (leaf : Leaf) : Prop where
  region : ∃ region ∈ vm.regions m, region.1 ≤ start + leaf.offset ∧
    start + leaf.offset + leaf.size ≤ region.1 + region.2
  fits : start + leaf.offset + leaf.size < 2 ^ 64
  outside : start + leaf.offset + leaf.size ≤ vm.stack ∨ sp ≤ start + leaf.offset

theorem AccessibleLeaf.of_allocations {sp start : ℕ} {leaf : Leaf} {m' : Machine}
    (h : AccessibleLeaf vm m sp start leaf) (hallocations : m'.allocations = m.allocations) :
    AccessibleLeaf vm m' sp start leaf := by
  have hregions : vm.regions m' = vm.regions m := by rw [regions, regions, hallocations]
  exact ⟨hregions ▸ h.region, h.fits, h.outside⟩

theorem AccessibleLeaf.of_push {sp start : ℕ} {leaf : Leaf} {m' : Machine}
    (h : AccessibleLeaf vm m sp start leaf) (hallocations : m'.allocations = m.allocations) :
    AccessibleLeaf vm m' (sp - 8) start leaf := by
  have houtside := h.outside
  exact ⟨(h.of_allocations hallocations).region, h.fits, by omega⟩

theorem AccessibleLeaf.canAccessMemory {sp start : ℕ} {leaf : Leaf}
    (h : AccessibleLeaf vm m sp start leaf) :
    vm.canAccessMemory m (BitVec.ofNat 64 (start + leaf.offset)) leaf.size = true := by
  obtain ⟨region, hmem, hlow, hhigh⟩ := h.region
  exact canAccessMemory_of_region hmem hlow hhigh

theorem movable_leafSize {size : ℕ} (h : IsLeafSize size) : movable size = true := by
  rcases h with rfl | rfl | rfl <;> rfl

/-- The address of a leaf. -/
theorem leaf_address {reg : BitVec 64} {offset : ℤ} {start : ℕ} (leaf : Leaf)
    (h : reg + BitVec.ofInt 64 offset = BitVec.ofNat 64 start) :
    reg + BitVec.ofInt 64 (offset + leaf.offset) = BitVec.ofNat 64 (start + leaf.offset) := by
  rw [BitVec.ofInt_add, ← BitVec.add_assoc, h, BitVec.ofInt_natCast, ofNat_add]

theorem runOps_loadLeaf {reg : Register} {offset : ℤ} {sp start : ℕ} {leaf : Leaf}
    (hpc : reg ≠ .pc) (haddr : m.registers reg + BitVec.ofInt 64 offset = BitVec.ofNat 64 start)
    (hsize : IsLeafSize leaf.size) (h : AccessibleLeaf vm m sp start leaf) :
    ∃ m', vm.runOps [loadLeaf reg offset leaf] m = .ok m' ∧
      m'.registers .a = m.memory.load (start + leaf.offset) leaf.size ∧
      SameExcept [.a] m m' ∧ m'.memory = m.memory := by
  have hfits := h.fits
  have hpos : 0 < leaf.size := by rcases hsize with h | h | h <;> omega
  have hnat : (BitVec.ofNat 64 (start + leaf.offset)).toNat = start + leaf.offset := by
    rw [BitVec.toNat_ofNat, Nat.mod_eq_of_lt (by omega)]
  refine vm.runOps_set m (loadLeaf reg offset leaf) .a
    (m.memory.load (start + leaf.offset) leaf.size) [] fun pc => ?_
  have hptr : (m.set .pc pc).registers reg + BitVec.ofInt 64 (offset + leaf.offset) =
      BitVec.ofNat 64 (start + leaf.offset) := by
    rw [Machine.set_registers_of_ne _ _ hpc, leaf_address leaf haddr]
  have haccess : vm.canAccessMemory (m.set .pc pc) (BitVec.ofNat 64 (start + leaf.offset))
      leaf.size = true := h.canAccessMemory
  rw [loadLeaf, execute_movRM]
  simp [movRM, hptr, haccess, movable_leafSize hsize, hnat]

theorem execute_movMR (toReg fromReg : Register) (size : ℕ) (offset : ℤ) :
    vm.execute m ((Op.movMR toReg fromReg size offset).imm.getD 0)
      (Op.movMR toReg fromReg size offset).inst = vm.movMR m toReg fromReg size offset := by
  unfold Op.movMR
  split
  · next hzero => simp [execute, hzero]
  · rfl

theorem runOps_storeLeaf {reg : Register} {offset : ℤ} {sp start : ℕ} {leaf : Leaf}
    (hpc : reg ≠ .pc) (haddr : m.registers reg + BitVec.ofInt 64 offset = BitVec.ofNat 64 start)
    (hsize : IsLeafSize leaf.size) (h : AccessibleLeaf vm m sp start leaf) :
    ∃ m', vm.runOps [storeLeaf reg offset leaf] m = .ok m' ∧ SameExcept [] m m' ∧
      m'.memory = m.memory.store (start + leaf.offset) leaf.size (m.registers .a) := by
  have hfits := h.fits
  have hpos : 0 < leaf.size := by rcases hsize with h | h | h <;> omega
  have hnat : (BitVec.ofNat 64 (start + leaf.offset)).toNat = start + leaf.offset := by
    rw [BitVec.toNat_ofNat, Nat.mod_eq_of_lt (by omega)]
  have hexec (pc : BitVec 64) : vm.execute (m.set .pc pc) ((storeLeaf reg offset leaf).imm.getD 0)
      (storeLeaf reg offset leaf).inst = .ok { m.set .pc pc with
        memory := m.memory.store (start + leaf.offset) leaf.size (m.registers .a) } := by
    have hptr : (m.set .pc pc).registers reg + BitVec.ofInt 64 (offset + leaf.offset) =
        BitVec.ofNat 64 (start + leaf.offset) := by
      rw [Machine.set_registers_of_ne _ _ hpc, leaf_address leaf haddr]
    have haccess : vm.canAccessMemory (m.set .pc pc) (BitVec.ofNat 64 (start + leaf.offset))
        leaf.size = true := h.canAccessMemory
    have ha : (m.set .pc pc).registers .a = m.registers .a :=
      Machine.set_registers_of_ne _ _ (by decide)
    rw [storeLeaf, execute_movMR]
    simp [movMR, hptr, haccess, movable_leafSize hsize, hnat, ha]
  refine ⟨_, runOps_cons_of_execute (hexec _), ?_, rfl⟩
  intro other hother _
  exact Machine.set_registers_of_ne _ _ hother

/-- The address is in the leaf of the value that begins at `start`. -/
def InLeaf (start : ℕ) (leaf : Leaf) (a : ℕ) : Prop :=
  start + leaf.offset ≤ a ∧ a < start + leaf.offset + leaf.size

/-- The bytes of the leaves at `d` are those that were at `s`, and the others, apart from the free
part of the stack, are as they were. -/
structure CopiedBytes (vm : VirtualMachine) (sp s d : ℕ) (leaves : List Leaf)
    (mem mem' : ByteMemory) : Prop where
  copied : ∀ leaf ∈ leaves, ∀ i < leaf.size,
    mem' (d + leaf.offset + i) = mem (s + leaf.offset + i)
  others : ∀ a, a < vm.stack ∨ sp ≤ a → (∀ leaf ∈ leaves, ¬ InLeaf d leaf a) → mem' a = mem a

/-- One leaf more: it is stored last, over what the others have left. -/
theorem CopiedBytes.cons {sp s d : ℕ} {leaf : Leaf} {rest : List Leaf} {mem mem₁ mem₂ : ByteMemory}
    (h : CopiedBytes vm (sp - 8) s d rest mem₁ mem₂) (hsp : 8 ≤ sp)
    (hsame : ∀ a, a < vm.stack ∨ sp ≤ a → mem₁ a = mem a)
    (hsource : ∀ other ∈ leaf :: rest, s + other.offset + other.size ≤ vm.stack ∨
      sp ≤ s + other.offset)
    (hsize : 8 * leaf.size ≤ 64) :
    CopiedBytes vm sp s d (leaf :: rest) mem
      (mem₂.store (d + leaf.offset) leaf.size (mem.load (s + leaf.offset) leaf.size : BitVec 64)) := by
  have hstored (i : ℕ) (hi : i < leaf.size) : mem₂.store (d + leaf.offset) leaf.size
      (mem.load (s + leaf.offset) leaf.size : BitVec 64) (d + leaf.offset + i) =
        mem (s + leaf.offset + i) := ByteMemory.store_load_apply _ _ _ _ hi hsize
  refine ⟨fun other hother i hi => ?_, fun a ha hnone => ?_⟩
  · by_cases hin : InLeaf d leaf (d + other.offset + i)
    · -- the two leaves overlap, and so do their sources
      obtain ⟨hlow, hhigh⟩ := hin
      have haddr : d + other.offset + i = d + leaf.offset + (other.offset + i - leaf.offset) := by omega
      rw [haddr, hstored _ (by omega)]
      exact congrArg mem (by omega)
    · rw [ByteMemory.store_apply_of_not_mem hin]
      rcases List.mem_cons.mp hother with rfl | hother'
      · exact absurd ⟨by omega, by omega⟩ hin
      · rw [h.copied other hother' i hi]
        have houtside := hsource other hother
        exact hsame _ (by omega)
  · rw [ByteMemory.store_apply_of_not_mem (hnone leaf (by simp))]
    rw [h.others a (by omega) fun other hother => hnone other (by simp [hother])]
    exact hsame a ha

section Copy

variable {sreg dreg : Register} {soffset doffset : ℤ} {s d : ℕ}

theorem runOps_copyCode (hsreg : sreg = .bp ∨ sreg = .b) (hdreg : dreg = .bp ∨ dreg = .b)
    {leaves : List Leaf} (hsizes : ∀ leaf ∈ leaves, IsLeafSize leaf.size) :
    ∀ {m : Machine} {sp : ℕ}, vm.StackAt m sp → vm.stack + 8 * leaves.length ≤ sp →
      m.registers sreg + BitVec.ofInt 64 soffset = BitVec.ofNat 64 s →
      m.registers dreg + BitVec.ofInt 64 doffset = BitVec.ofNat 64 d →
      (∀ leaf ∈ leaves, AccessibleLeaf vm m sp s leaf) →
      (∀ leaf ∈ leaves, AccessibleLeaf vm m sp d leaf) →
      ∃ m', vm.runOps (copyCode sreg dreg soffset doffset leaves) m = .ok m' ∧
        SameExcept [.a] m m' ∧ CopiedBytes vm sp s d leaves m.memory m'.memory := by
  have hspc : sreg ≠ .pc := by rcases hsreg with rfl | rfl <;> decide
  have hdpc : dreg ≠ .pc := by rcases hdreg with rfl | rfl <;> decide
  have hsa : sreg ∉ [Register.a] := by rcases hsreg with rfl | rfl <;> decide
  have hda : dreg ∉ [Register.a] := by rcases hdreg with rfl | rfl <;> decide
  have hssp : sreg ∉ [Register.sp] := by rcases hsreg with rfl | rfl <;> decide
  have hdsp : dreg ∉ [Register.sp] := by rcases hdreg with rfl | rfl <;> decide
  have hwidth : ∀ leaf ∈ leaves, 8 * leaf.size ≤ 64 := by
    intro leaf hleaf
    rcases hsizes leaf hleaf with h | h | h <;> omega
  induction leaves with
  | nil =>
      intro m sp _ _ _ _ _ _
      exact ⟨m, rfl, fun _ _ _ => rfl, by simp, fun _ _ _ => rfl⟩
  | cons leaf rest ih =>
      intro m sp hstack hroom hsaddr hdaddr hsource hdest
      have hsize := hsizes leaf (by simp)
      have houtside := fun other hother => (hsource other hother).outside
      obtain ⟨m₁, hload, ha₁, hsame₁, hmemory₁⟩ :=
        runOps_loadLeaf hspc hsaddr hsize (hsource leaf (by simp))
      cases rest with
      | nil =>
          have hdaddr₁ : m₁.registers dreg + BitVec.ofInt 64 doffset = BitVec.ofNat 64 d := by
            rw [hsame₁ dreg hdpc hda, hdaddr]
          have hallocations := runOps_allocations
            (fun op hop => (List.mem_singleton.mp hop ▸ loadLeaf_straight sreg soffset leaf).sequential)
            hload
          have hdest₁ := (hdest leaf (by simp)).of_allocations hallocations
          obtain ⟨m₂, hstore, hsame₂, hmemory₂⟩ := runOps_storeLeaf hdpc hdaddr₁ hsize hdest₁
          refine ⟨m₂, (runOps_append_of_ok _ hload).trans hstore, fun reg hpc hne => ?_, ?_⟩
          · rw [hsame₂ reg hpc (by simp), hsame₁ reg hpc hne]
          · have hnone : CopiedBytes vm (sp - 8) s d [] m.memory m.memory :=
              ⟨by simp, fun _ _ _ => rfl⟩
            rw [hmemory₂, hmemory₁, ha₁]
            simp only [List.length_cons, List.length_nil] at hroom
            exact hnone.cons (by omega) (fun _ _ => rfl) houtside (hwidth leaf (by simp))
      | cons leaf' rest =>
          simp only [List.length_cons] at hroom ih
          obtain ⟨m₂, hpush, hstack₂, hsame₂, hmemory₂⟩ := runOps_push .a []
            (hstack.of_eq (hsame₁ .sp (by decide) (by decide))) (by omega) (by decide) (by decide)
          have hpushed : vm.runOps [loadLeaf sreg soffset leaf, ⟨.push .a, none⟩] m = .ok m₂ :=
            (runOps_append_of_ok [⟨.push .a, none⟩] hload).trans hpush
          have hallocations₂ := runOps_allocations (fun op hop => by
            simp only [List.mem_cons, List.not_mem_nil, or_false] at hop
            rcases hop with rfl | rfl
            · exact (loadLeaf_straight sreg soffset leaf).sequential
            · trivial) hpushed
          have hsaddr₂ : m₂.registers sreg + BitVec.ofInt 64 soffset = BitVec.ofNat 64 s := by
            rw [hsame₂ sreg hspc hssp, hsame₁ sreg hspc hsa, hsaddr]
          have hdaddr₂ : m₂.registers dreg + BitVec.ofInt 64 doffset = BitVec.ofNat 64 d := by
            rw [hsame₂ dreg hdpc hdsp, hsame₁ dreg hdpc hda, hdaddr]
          obtain ⟨m₃, hrest, hsame₃, hcopied⟩ := ih (fun other hother => hsizes other (by simp [hother]))
            (fun other hother => hwidth other (by simp [hother])) hstack₂ (by omega) hsaddr₂ hdaddr₂
            (fun other hother => (hsource other (by simp [hother])).of_push hallocations₂)
            (fun other hother => (hdest other (by simp [hother])).of_push hallocations₂)
          have hallocations₃ := runOps_allocations
            (fun op hop => (copyCode_straight sreg dreg soffset doffset _ op hop).sequential) hrest
          have hhigh := hstack.high
          obtain ⟨m₄, hpop, hstack₄, ha₄, hsame₄, hmemory₄⟩ := runOps_pop .a []
            (hstack₂.of_eq (hsame₃ .sp (by decide) (by decide))) (by omega) (by decide)
          have hallocations₄ : m₄.allocations = m₃.allocations :=
            runOps_allocations (by simp [Instruction.Sequential]) hpop
          have hda₄ : dreg ∉ [Register.a, .sp] := by rcases hdreg with rfl | rfl <;> decide
          have hdaddr₄ : m₄.registers dreg + BitVec.ofInt 64 doffset = BitVec.ofNat 64 d := by
            rw [hsame₄ dreg hdpc hda₄, hsame₃ dreg hdpc hda, hdaddr₂]
          have hdest₄ := (hdest leaf (by simp)).of_allocations
            (hallocations₄.trans (hallocations₃.trans hallocations₂))
          obtain ⟨m₅, hstore, hsame₅, hmemory₅⟩ := runOps_storeLeaf hdpc hdaddr₄ hsize hdest₄
          -- the slot of the leaf is below the destination, so the other leaves leave it alone
          have hslot : m₄.registers .a = m₁.registers .a := by
            have hload₃ : (m₃.memory.load (sp - 8) 8 : BitVec 64) = m₂.memory.load (sp - 8) 8 := by
              refine ByteMemory.load_congr fun i hi => hcopied.others _ (by omega) ?_
              rintro other hother ⟨hlow, hhigh⟩
              have houtside := (hdest other (by simp [hother])).outside
              omega
            rw [ha₄, hload₃, hmemory₂]
            exact ByteMemory.load_store_word _ _ rfl _
          refine ⟨m₅, ?_, fun reg hpc hne => ?_, ?_⟩
          · rw [copyCode, List.append_assoc, runOps_append_of_ok _ hpushed,
              runOps_append_of_ok _ hrest]
            exact (runOps_append_of_ok [storeLeaf dreg doffset leaf] hpop).trans hstore
          · rw [hsame₅ reg hpc (by simp)]
            by_cases hsp : reg = .sp
            · subst hsp
              rw [hstack₄.register, hstack.register]
              exact congrArg _ (by omega)
            · have hne : reg ≠ .a := by simpa using hne
              rw [hsame₄ reg hpc (by simp [hne, hsp]), hsame₃ reg hpc (by simpa using hne),
                hsame₂ reg hpc (by simpa using hsp), hsame₁ reg hpc (by simpa using hne)]
          · rw [hmemory₅, hmemory₄, hslot, ha₁]
            refine hcopied.cons (by omega) (fun a ha => ?_) houtside (hwidth leaf (by simp))
            rw [hmemory₂, hmemory₁, ByteMemory.store_apply_of_not_mem (by omega)]

/-- Copying a value.  The ranges may overlap; `fuel` is any number that is enough for all leaves. -/
theorem run_copy (hsreg : sreg = .bp ∨ sreg = .b) (hdreg : dreg = .bp ∨ dreg = .b)
    (htable : TableInvariant ast) {type : TypeId} (hcomplete : CompleteType ast type) {fuel : ℕ}
    (hfuel : ast.depth ≤ fuel) {piece : BytecodePiece} {ops : List Op} (hasm : Assembles piece ops)
    {m : Machine} {sp : ℕ} {post : List Cell} :
    let copied := generatePop ast dreg ast.depth doffset type
      (generatePush ast sreg ast.depth soffset type piece)
    let leaves := ast.leafList fuel 0 type
    vm.At (copied.instructions ++ post) piece.getPc m → vm.StackAt m sp →
    vm.stack + 8 * leaves.length ≤ sp →
    m.registers sreg + BitVec.ofInt 64 soffset = BitVec.ofNat 64 s →
    m.registers dreg + BitVec.ofInt 64 doffset = BitVec.ofNat 64 d →
    (∀ leaf ∈ leaves, AccessibleLeaf vm m sp s leaf) →
    (∀ leaf ∈ leaves, AccessibleLeaf vm m sp d leaf) →
    ∃ m', vm.run (copied.indexOfNonImmediates.length - piece.indexOfNonImmediates.length) m =
        .ok m' ∧ vm.At (copied.instructions ++ post) copied.getPc m' ∧
      m'.registers .sp = m.registers .sp ∧ m'.registers .bp = m.registers .bp ∧
      m'.registers .b = m.registers .b ∧ CopiedBytes vm sp s d leaves m.memory m'.memory := by
  intro copied leaves hat hstack hroom hsaddr hdaddr hsource hdest
  have hnesting := hcomplete.nesting_lt htable
  have hleaves : ast.leafList ast.depth 0 type = leaves :=
    hcomplete.leafList_eq htable hnesting (by omega)
  have hdreg' : dreg ≠ .invalid := by rcases hdreg with rfl | rfl <;> decide
  let code := copyCode sreg dreg soffset doffset leaves
  have hcopied : Assembles copied (ops ++ code) := by
    have hpush := @generatePush_assembles ast sreg soffset ast.depth 0 type piece ops hasm
    have hpop := @generatePop_assembles ast dreg doffset hdreg' type hcomplete ast.depth 0 _ _ hpush
    rw [hleaves, popLeaves_pushLeaves] at hpop
    simpa using hpop
  have hcells : copied.instructions = piece.instructions ++ Op.flatten code := by
    rw [hcopied.instructions, hasm.instructions, Op.flatten_append]
  have hcount : copied.indexOfNonImmediates.length - piece.indexOfNonImmediates.length =
      code.length := by
    rw [hcopied.positions, hasm.positions]
    simp only [Op.length_positions, List.length_append]
    omega
  have hsizes := hcomplete.leafSize fuel 0
  obtain ⟨m', hrun, hsame, hbytes⟩ := runOps_copyCode hsreg hdreg hsizes hstack hroom hsaddr hdaddr
    hsource hdest
  rw [hcells] at hat
  obtain ⟨hloop, hend⟩ :=
    run_of_runOps (copyCode_straight sreg dreg soffset doffset leaves) hat
  refine ⟨m', by rw [hcount, hloop, hrun], ?_, hsame .sp (by decide) (by decide),
    hsame .bp (by decide) (by decide), hsame .b (by decide) (by decide), hbytes⟩
  rw [BytecodePiece.getPc, hcells]
  exact hend m' hrun

/-- From `bp - 8` to `bp - 16`. -/
theorem run_copy_pair :
    let ast := attempt 1 (parsedTables pair) 0
    let copied := generatePop ast .bp ast.depth (-16) ⟨5, 0⟩
      (generatePush ast .bp ast.depth (-8) ⟨5, 0⟩ {})
    let vm := VirtualMachine.ofPieces [copied.instructions]
    let m : Machine := { ((startMachine vm).set .sp 0x10fff0).set .bp 0x110000 with pieceIndex := 0 }
    ∃ m', vm.run (copied.indexOfNonImmediates.length - 0) m = .ok m' ∧
      vm.At (copied.instructions ++ []) copied.getPc m' ∧ m'.registers .sp = m.registers .sp ∧
      m'.registers .bp = m.registers .bp ∧ m'.registers .b = m.registers .b ∧
      CopiedBytes vm 0x10fff0 0x10fff8 0x10fff0 (ast.leafList ast.depth 0 ⟨5, 0⟩) m.memory
        m'.memory := by
  intro ast copied vm m
  have hmembers : ∀ member ∈ (ast.structures 0).members, member.typeId.Valid ∧
      ast.structOf member.typeId = none ∧ IsLeafSize (ast.sizeOfType member.typeId) := by decide
  have hcomplete : CompleteType ast ⟨5, 0⟩ :=
    .struct (s := 0) (by decide) (by decide) (by decide) fun member hmember =>
      .leaf (hmembers member hmember).1 (hmembers member hmember).2.1 (hmembers member hmember).2.2
  have hat : vm.At (copied.instructions ++ []) 0 m := ⟨by simp [vm, m]; rfl, rfl, by decide⟩
  have hleaves : ast.leafList ast.depth 0 ⟨5, 0⟩ = [⟨0, 1⟩, ⟨4, 4⟩] := by decide
  have haccessible (start : ℕ) (hlow : 0x10fff0 ≤ start) (hhigh : start + 8 ≤ 0x110000) :
      ∀ leaf ∈ ast.leafList ast.depth 0 ⟨5, 0⟩, AccessibleLeaf vm m 0x10fff0 start leaf := by
    intro leaf hleaf
    have hstack : (0x100000, 0x10000) ∈ vm.regions m := List.mem_cons_self
    simp only [hleaves, List.mem_cons, List.not_mem_nil, or_false] at hleaf
    rcases hleaf with rfl | rfl
    · exact ⟨⟨_, hstack, by simp only; omega, by simp only; omega⟩, by simp only; omega,
        .inr (by simp only; omega)⟩
    · exact ⟨⟨_, hstack, by simp only; omega, by simp only; omega⟩, by simp only; omega,
        .inr (by simp only; omega)⟩
  exact run_copy (.inl rfl) (.inl rfl) structRun_pair.soundStructs.table hcomplete (Nat.le_refl _)
    assembles_empty hat ⟨rfl, by decide, by decide⟩ (by decide) (by decide) (by decide)
    (haccessible _ (by decide) (by decide)) (haccessible _ (by decide) (by decide))

end Copy

end Execution

end TinCompiler
