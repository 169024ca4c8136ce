import TinCompiler.Generator.Layout

/-!
# Calls and their relocations

`apply_relocations` of `Bytecode.cpp`, and what it relies on: the relocations of a piece are
those of its calls, one for each, in the order of the code (`Linked`).  Every emit function
keeps it so (`CodeExtends`), also where `emit_pop` takes a push away and where a jump gets its
target.
-/

namespace TinCompiler

/-- The immediate of a call of the function; 0 is no function. -/
def ASTFunction.callImmediate (function : ASTFunction) : ℤ :=
  if function.pieceCodeIndex < 0 then function.pieceCodeIndex else function.pieceCodeIndex + 1

/-- The loop of `apply_relocations` over the relocations of one piece. -/
def relocate (functions : ℕ → ASTFunction) (relocations : List (ℕ × ℕ)) (cells : List Cell) :
    List Cell :=
  relocations.foldl (fun cells rel => cells.set rel.2 (.imm (functions rel.1).callImmediate)) cells

def BytecodePiece.applyRelocations (functions : ℕ → ASTFunction) (piece : BytecodePiece) :
    BytecodePiece :=
  { piece with instructions := relocate functions piece.relocations piece.instructions }

/-- `apply_relocations` -/
def Bytecode.applyRelocations (bytecode : Bytecode) (ast : AST) : Bytecode :=
  { bytecode with pieces := bytecode.pieces.map (BytecodePiece.applyRelocations ast.functions) }

/-- The indices of the immediates of the calls, from a first index on. -/
def callImmediates : ℕ → List Op → List ℕ
  | _, [] => []
  | start, op :: ops =>
      (if op.inst = .call then [start + 1] else []) ++ callImmediates (start + op.cells.length) ops

/-- The operations of a piece have the immediates that their instructions read, and its
relocations are those of the calls. -/
structure Linked (piece : BytecodePiece) (ops : List Op) : Prop where
  assembles : Assembles piece ops
  imm : ∀ op ∈ ops, op.inst.hasImmediate = op.imm.isSome
  relocations : piece.relocations.map Prod.snd = callImmediates 0 ops

/-- There is an immediate at this index. -/
def BytecodePiece.ImmAt (piece : BytecodePiece) (i : ℕ) : Prop :=
  ∃ v, piece.instructions[i]? = some (.imm v)

/-- Code that calls `functions`, in this order, is added. -/
structure CodeExtends (piece piece' : BytecodePiece) (functions : List ℕ) : Prop where
  linked : ∀ ops, Linked piece ops → (∃ ops', Linked piece' ops') ∧
    ∀ i, piece.ImmAt i → piece'.ImmAt i
  relocations : ∃ added, piece'.relocations = piece.relocations ++ added ∧
    added.map Prod.fst = functions

theorem callImmediates_append (ops ops' : List Op) : ∀ start,
    callImmediates start (ops ++ ops') =
      callImmediates start ops ++ callImmediates (start + (Op.flatten ops).length) ops' := by
  induction ops with
  | nil => simp [callImmediates]
  | cons op ops ih =>
      intro start
      simp [callImmediates, ih, Nat.add_assoc]

theorem callImmediates_concat {ops : List Op} {op : Op} (hcall : op.inst ≠ .call) :
    callImmediates 0 (ops ++ [op]) = callImmediates 0 ops := by
  rw [callImmediates_append, callImmediates, if_neg hcall]
  simp [callImmediates]

/-! ## Where the relocations are -/

/-- The index of an immediate is that of its call plus one. -/
theorem mem_callImmediates {ops : List Op}
    (himm : ∀ op ∈ ops, op.inst.hasImmediate = op.imm.isSome) : ∀ {start k : ℕ},
    k ∈ callImmediates start ops ↔
      ∃ p, k = start + p + 1 ∧ (Op.flatten ops)[p]? = some (.inst .call) := by
  induction ops with
  | nil => simp [callImmediates]
  | cons op ops ih =>
      intro start k
      have hop := himm op (List.mem_cons_self ..)
      obtain ⟨inst, _ | v⟩ := op
      · -- a call has an immediate
        have hne : inst ≠ .call := by
          rintro rfl
          cases hop
        simp only [callImmediates, if_neg hne, List.nil_append,
          ih fun op hmem => himm op (List.mem_cons_of_mem _ hmem), Op.flatten_cons]
        constructor
        · rintro ⟨p, hk, hp⟩
          refine ⟨p + 1, ?_, hp⟩
          change k = start + 1 + p + 1 at hk
          omega
        · rintro ⟨_ | p, hk, hp⟩
          · cases hp
            exact absurd rfl hne
          · refine ⟨p, ?_, hp⟩
            change k = start + 1 + p + 1
            omega
      · simp only [callImmediates, List.mem_append,
          ih fun op hmem => himm op (List.mem_cons_of_mem _ hmem), Op.flatten_cons]
        constructor
        · rintro (hk | ⟨p, hk, hp⟩)
          · split at hk
            · next hcall =>
                refine ⟨0, List.mem_singleton.mp hk, ?_⟩
                rw [hcall]
                rfl
            · cases hk
          · refine ⟨p + 2, ?_, hp⟩
            change k = start + 2 + p + 1 at hk
            omega
        · rintro ⟨_ | _ | p, hk, hp⟩
          · cases hp
            exact .inl (by simp [hk])
          · cases hp
          · refine .inr ⟨p, ?_, hp⟩
            change k = start + 2 + p + 1
            omega

/-- The immediates come in the order of the code. -/
theorem pairwise_callImmediates {ops : List Op}
    (himm : ∀ op ∈ ops, op.inst.hasImmediate = op.imm.isSome) : ∀ start,
    (callImmediates start ops).Pairwise (· < ·) := by
  induction ops with
  | nil => exact fun _ => .nil
  | cons op ops ih =>
      intro start
      have hrest : ∀ op ∈ ops, op.inst.hasImmediate = op.imm.isSome :=
        fun op hmem => himm op (List.mem_cons_of_mem _ hmem)
      refine List.pairwise_append.mpr ⟨?_, ih hrest _, fun k hk k' hk' => ?_⟩
      · split
        · exact List.pairwise_singleton ..
        · exact .nil
      · obtain ⟨p, rfl, -⟩ := (mem_callImmediates hrest).mp hk'
        obtain ⟨rest, hcells⟩ := Op.head_cells op
        have hlength := congrArg List.length hcells
        rw [List.length_cons] at hlength
        split at hk
        · rw [List.mem_singleton.mp hk]
          omega
        · cases hk

/-- Every call has an immediate behind it. -/
theorem exists_imm_of_call {ops : List Op}
    (himm : ∀ op ∈ ops, op.inst.hasImmediate = op.imm.isSome) : ∀ {p : ℕ},
    (Op.flatten ops)[p]? = some (.inst .call) → ∃ v, (Op.flatten ops)[p + 1]? = some (.imm v) := by
  induction ops with
  | nil => simp
  | cons op ops ih =>
      intro p hp
      have hop := himm op (List.mem_cons_self ..)
      have hrest := fun op hmem => himm op (List.mem_cons_of_mem _ hmem)
      obtain ⟨inst, _ | v⟩ := op
      · cases p with
        | zero =>
            cases hp
            cases hop
        | succ p => exact ih hrest hp
      · rcases p with _ | _ | p
        · exact ⟨v, rfl⟩
        · cases hp
        · exact ih hrest hp

namespace Linked

variable {piece : BytecodePiece} {ops : List Op}

theorem nodup (h : Linked piece ops) : (piece.relocations.map Prod.snd).Nodup := by
  rw [h.relocations]
  exact (pairwise_callImmediates h.imm 0).imp Nat.ne_of_lt

/-- The relocations are behind the calls. -/
theorem mem_iff (h : Linked piece ops) (k : ℕ) : k ∈ piece.relocations.map Prod.snd ↔
    ∃ p, k = p + 1 ∧ piece.instructions[p]? = some (.inst .call) := by
  rw [h.relocations, mem_callImmediates h.imm, h.assembles.instructions]
  simp only [Nat.zero_add]

theorem immAt (h : Linked piece ops) {k : ℕ} (hk : k ∈ piece.relocations.map Prod.snd) :
    piece.ImmAt k := by
  obtain ⟨p, rfl, hp⟩ := (h.mem_iff k).mp hk
  rw [h.assembles.instructions] at hp
  obtain ⟨v, hv⟩ := exists_imm_of_call h.imm hp
  exact ⟨v, by rw [h.assembles.instructions, hv]⟩

end Linked

/-! ## What applying relocations does -/

section Relocate

variable {functions : ℕ → ASTFunction} {relocations : List (ℕ × ℕ)} {cells : List Cell}

theorem relocate_cons (rel : ℕ × ℕ) : relocate functions (rel :: relocations) cells =
    relocate functions relocations (cells.set rel.2 (.imm (functions rel.1).callImmediate)) := rfl

/-- No other cell is touched. -/
theorem getElem?_relocate_of_notMem {i : ℕ} (hi : i ∉ relocations.map Prod.snd) :
    (relocate functions relocations cells)[i]? = cells[i]? := by
  induction relocations generalizing cells with
  | nil => rfl
  | cons rel relocations ih =>
      rw [List.map_cons, List.mem_cons, not_or] at hi
      rw [relocate_cons, ih hi.2, List.getElem?_set_ne (Ne.symm hi.1)]

theorem getElem?_relocate_of_mem (hnodup : (relocations.map Prod.snd).Nodup) {rel : ℕ × ℕ}
    (hrel : rel ∈ relocations) (hlt : rel.2 < cells.length) :
    (relocate functions relocations cells)[rel.2]? =
      some (.imm (functions rel.1).callImmediate) := by
  induction relocations generalizing cells with
  | nil => cases hrel
  | cons first relocations ih =>
      rw [List.map_cons, List.nodup_cons] at hnodup
      rw [relocate_cons]
      rcases List.mem_cons.mp hrel with rfl | hrel
      · rw [getElem?_relocate_of_notMem hnodup.1, List.getElem?_set_self hlt]
      · exact ih hnodup.2 hrel (by rwa [List.length_set])

@[simp] theorem length_relocate : (relocate functions relocations cells).length = cells.length := by
  induction relocations generalizing cells with
  | nil => rfl
  | cons rel relocations ih => rw [relocate_cons, ih, List.length_set]

/-- A second time changes nothing. -/
theorem relocate_relocate (hnodup : (relocations.map Prod.snd).Nodup) :
    relocate functions relocations (relocate functions relocations cells) =
      relocate functions relocations cells := by
  refine List.ext_getElem? fun i => ?_
  by_cases hi : i ∈ relocations.map Prod.snd
  · obtain ⟨rel, hrel, rfl⟩ := List.mem_map.mp hi
    by_cases hlt : rel.2 < cells.length
    · rw [getElem?_relocate_of_mem hnodup hrel hlt,
        getElem?_relocate_of_mem hnodup hrel (by rwa [length_relocate])]
    · rw [List.getElem?_eq_none (by simpa using hlt), List.getElem?_eq_none (by simpa using hlt)]
  · rw [getElem?_relocate_of_notMem hi]

end Relocate

namespace CodeExtends

variable {piece piece' piece'' : BytecodePiece} {functions functions' : List ℕ}

theorem refl (piece : BytecodePiece) : CodeExtends piece piece [] :=
  ⟨fun ops h => ⟨⟨ops, h⟩, fun _ hi => hi⟩, [], (List.append_nil _).symm, rfl⟩

theorem trans (h : CodeExtends piece piece' functions) (h' : CodeExtends piece' piece'' functions') :
    CodeExtends piece piece'' (functions ++ functions') where
  linked := by
    intro ops hlinked
    obtain ⟨⟨ops', hlinked'⟩, himms⟩ := h.linked ops hlinked
    obtain ⟨hlinked'', himms'⟩ := h'.linked ops' hlinked'
    exact ⟨hlinked'', fun i hi => himms' i (himms i hi)⟩
  relocations := by
    obtain ⟨added, heq, hadded⟩ := h.relocations
    obtain ⟨added', heq', hadded'⟩ := h'.relocations
    refine ⟨added ++ added', ?_, ?_⟩
    · rw [heq', heq, List.append_assoc]
    · rw [List.map_append, hadded, hadded']

/-- Code without calls behind code without calls. -/
theorem andThen (h : CodeExtends piece piece' []) (h' : CodeExtends piece' piece'' []) :
    CodeExtends piece piece'' [] := h.trans h'

/-- Only `virtual_sp` is different. -/
theorem of_eq (hinstructions : piece'.instructions = piece.instructions)
    (hpositions : piece'.indexOfNonImmediates = piece.indexOfNonImmediates)
    (hrelocations : piece'.relocations = piece.relocations) : CodeExtends piece piece' [] where
  linked := fun ops h => ⟨⟨ops, h.assembles.of_eq hinstructions hpositions, h.imm,
    hrelocations ▸ h.relocations⟩, fun i hi => by
      unfold BytecodePiece.ImmAt
      rwa [hinstructions]⟩
  relocations := ⟨[], by rw [hrelocations, List.append_nil], rfl⟩

theorem immAt_of_append {cells : List Cell} (h : piece'.instructions = piece.instructions ++ cells) {i : ℕ}
    (hi : piece.ImmAt i) : piece'.ImmAt i := by
  obtain ⟨v, hv⟩ := hi
  refine ⟨v, ?_⟩
  rw [h, List.getElem?_append_left (List.getElem?_eq_some_iff.mp hv).1, hv]

/-- One operation that is no call. -/
theorem concat (op : Op) (himm : op.inst.hasImmediate = op.imm.isSome) (hcall : op.inst ≠ .call)
    (hassembles : ∀ ops, Assembles piece ops → Assembles piece' (ops ++ [op]))
    (hrelocations : piece'.relocations = piece.relocations) : CodeExtends piece piece' [] where
  linked := by
    intro ops h
    refine ⟨⟨ops ++ [op], hassembles ops h.assembles, fun op' hmem => ?_, ?_⟩, fun i hi => ?_⟩
    · rcases List.mem_append.mp hmem with hmem | hmem
      · exact h.imm op' hmem
      · rwa [List.mem_singleton.mp hmem]
    · rw [hrelocations, h.relocations, callImmediates_concat hcall]
    · have hcells : piece'.instructions = piece.instructions ++ Op.flatten [op] := by
        rw [(hassembles ops h.assembles).instructions, h.assembles.instructions, Op.flatten_append]
      exact immAt_of_append hcells hi
  relocations := ⟨[], by rw [hrelocations, List.append_nil], rfl⟩

/-! ## The emit functions -/

variable (piece)

theorem emit {inst : Instruction} (himm : inst.hasImmediate = false) :
    CodeExtends piece (piece.emit inst) [] := by
  refine concat ⟨inst, none⟩ himm ?_ (fun _ h => h.emit inst) rfl
  rintro rfl
  cases himm

theorem emitWithImm {inst : Instruction} (himm : inst.hasImmediate = true) (hcall : inst ≠ .call)
    (value : ℤ) : CodeExtends piece ((piece.emit inst).emitImm value) [] :=
  concat ⟨inst, some value⟩ himm hcall (fun _ h => h.emitWithImm inst value) rfl

theorem emitLi (reg : Register) (imm : ℤ) : CodeExtends piece (piece.emitLi reg imm) [] :=
  emitWithImm piece rfl (by simp) imm

theorem emitDataptr (reg : Register) (offset : ℤ) : CodeExtends piece (piece.emitDataptr reg offset) [] :=
  emitWithImm piece rfl (by simp) offset

theorem emitPush (reg : Register) : CodeExtends piece (piece.emitPush reg) [] :=
  (emit piece rfl).andThen (of_eq rfl rfl rfl)

theorem emitIncr (reg : Register) (imm : ℤ) : CodeExtends piece (piece.emitIncr reg imm) [] := by
  unfold BytecodePiece.emitIncr
  dsimp only
  split
  · exact (emit piece rfl).andThen (of_eq rfl rfl rfl)
  · exact emit piece rfl

theorem emitMovMRDisp (toReg fromReg : Register) (size : ℕ) (offset : ℤ) :
    CodeExtends piece (piece.emitMovMRDisp toReg fromReg size offset) [] := by
  unfold BytecodePiece.emitMovMRDisp
  split
  · exact emit piece rfl
  · exact emitWithImm piece rfl (by simp) offset

theorem emitMovRMDisp (toReg fromReg : Register) (size : ℕ) (offset : ℤ) :
    CodeExtends piece (piece.emitMovRMDisp toReg fromReg size offset) [] := by
  unfold BytecodePiece.emitMovRMDisp
  split
  · exact emit piece rfl
  · exact emitWithImm piece rfl (by simp) offset

theorem emitJmp (pc : ℕ) : CodeExtends piece (piece.emitJmp pc) [] :=
  emitWithImm piece rfl (by simp) _

/-- The immediate of the jump is the last cell. -/
theorem emitJmpReloc : CodeExtends piece piece.emitJmpReloc.2 [] ∧
    piece.emitJmpReloc.2.ImmAt piece.emitJmpReloc.1 := by
  refine ⟨emitWithImm piece rfl (by simp) 0, 0, ?_⟩
  simp [BytecodePiece.emitJmpReloc, BytecodePiece.emit, BytecodePiece.emitImm, BytecodePiece.getPc]

theorem emitJzReloc (reg : Register) : CodeExtends piece (piece.emitJzReloc reg).2 [] ∧
    (piece.emitJzReloc reg).2.ImmAt (piece.emitJzReloc reg).1 := by
  refine ⟨emitWithImm piece rfl (by simp) 0, 0, ?_⟩
  simp [BytecodePiece.emitJzReloc, BytecodePiece.emit, BytecodePiece.emitImm, BytecodePiece.getPc]

/-- A call gets its relocation. -/
theorem emitCall (f : ℕ) : CodeExtends piece (piece.emitCall.2.addRelocation f piece.emitCall.1) [f] where
  linked := by
    intro ops h
    have hassembles := h.assembles.emitCall.addRelocation f piece.emitCall.1
    refine ⟨⟨_, hassembles, fun op hmem => ?_, ?_⟩, fun i hi => ?_⟩
    · rcases List.mem_append.mp hmem with hmem | hmem
      · exact h.imm op hmem
      · rw [List.mem_singleton.mp hmem]
        rfl
    · rw [callImmediates_append, callImmediates, if_pos rfl, ← h.relocations]
      simp [BytecodePiece.emitCall, BytecodePiece.addRelocation, BytecodePiece.emitImm,
        BytecodePiece.emit, BytecodePiece.getPc, h.assembles.instructions, callImmediates]
    · refine @immAt_of_append _ _ [.inst .call, .imm 0] ?_ i hi
      simp [BytecodePiece.emitCall, BytecodePiece.addRelocation, BytecodePiece.emitImm,
        BytecodePiece.emit]
  relocations := ⟨[(f, piece.emitCall.1)], rfl, rfl⟩

/-- What is taken away is a push, which has no immediate and no relocation. -/
theorem emitPop (reg : Register) : CodeExtends piece (piece.emitPop reg) [] := by
  have hrelocations : (piece.emitPop reg).relocations = piece.relocations := by
    unfold BytecodePiece.emitPop BytecodePiece.popLastInst
    dsimp only
    split
    · split <;> rfl
    · rfl
  refine ⟨fun ops h => ?_, [], by rw [hrelocations, List.append_nil], rfl⟩
  have hassembles := h.assembles.emitPop reg
  obtain ⟨init, op, rfl, hinst, heq⟩ | heq := popOp_cases reg ops
  · have himm : op.imm = none := by
      have hop := h.imm op (by simp)
      rw [hinst] at hop
      exact Option.not_isSome_iff_eq_none.mp (by simp [← hop, Instruction.hasImmediate])
    rw [heq] at hassembles
    refine ⟨⟨init, hassembles, fun op hmem => h.imm op (by simp [hmem]), ?_⟩, fun i hi => ?_⟩
    · rw [hrelocations, h.relocations, callImmediates_concat (by simp [hinst])]
    · obtain ⟨v, hv⟩ := hi
      refine ⟨v, ?_⟩
      obtain ⟨inst, imm⟩ := op
      obtain rfl : imm = none := himm
      rw [h.assembles.instructions, Op.flatten_append, List.getElem?_append] at hv
      split at hv
      · rw [hassembles.instructions, hv]
      · obtain rfl : i = (Op.flatten init).length := by
          have hlt := (List.getElem?_eq_some_iff.mp hv).1
          simp [Op.cells] at hlt
          omega
        simp [Op.cells] at hv
  · rw [heq] at hassembles
    refine ⟨⟨_, hassembles, fun op hmem => ?_, ?_⟩, fun i hi => ?_⟩
    · rcases List.mem_append.mp hmem with hmem | hmem
      · exact h.imm op hmem
      · rw [List.mem_singleton.mp hmem]
        rfl
    · rw [hrelocations, h.relocations, callImmediates_concat (by simp)]
    · refine @immAt_of_append _ _ (Op.flatten [⟨.pop reg, none⟩]) ?_ i hi
      rw [hassembles.instructions, h.assembles.instructions, Op.flatten_append]

/-- A jump gets its target. -/
theorem fixJumpHere {i : ℕ} (hi : piece.ImmAt i) : CodeExtends piece (piece.fixJumpHere i) [] := by
  refine ⟨fun ops h => ?_, [], (List.append_nil _).symm, rfl⟩
  obtain ⟨v, hv⟩ := hi
  have hv' := hv
  rw [h.assembles.instructions] at hv'
  obtain ⟨pre, inst, post, rfl, rfl⟩ := exists_op_of_imm hv'
  generalize hindex : (Op.flatten pre).length + 1 = i at hv
  refine ⟨⟨pre ++ ⟨inst, some (piece.getPc - i)⟩ :: post, ⟨?_, ?_⟩, ?_, ?_⟩, fun j hj => ?_⟩
  · subst hindex
    simp only [BytecodePiece.fixJumpHere, h.assembles.instructions, Op.flatten_append,
      Op.flatten_cons, Op.cells]
    rw [List.set_append_right _ _ (by omega)]
    simp
  · change piece.indexOfNonImmediates = _
    rw [h.assembles.positions, Op.positions_append, Op.positions_append]
    rfl
  · intro op hmem
    rcases List.mem_append.mp hmem with hmem | hmem
    · exact h.imm op (by simp [hmem])
    · rcases List.mem_cons.mp hmem with rfl | hmem
      · exact h.imm ⟨inst, some v⟩ (by simp)
      · exact h.imm op (by simp [hmem])
  · change piece.relocations.map Prod.snd = _
    rw [h.relocations, callImmediates_append, callImmediates_append]
    rfl
  · obtain ⟨u, hu⟩ := hj
    unfold BytecodePiece.ImmAt BytecodePiece.fixJumpHere
    by_cases heq : i = j
    · subst heq
      exact ⟨_, List.getElem?_set_self (List.getElem?_eq_some_iff.mp hu).1⟩
    · exact ⟨u, by rw [List.getElem?_set_ne heq, hu]⟩

/-! ## The composed emit functions -/

theorem foldl {α : Type} (f : BytecodePiece → α → BytecodePiece)
    (hf : ∀ piece a, CodeExtends piece (f piece a) []) : ∀ (l : List α) (piece : BytecodePiece),
      CodeExtends piece (l.foldl f piece) []
  | [], piece => refl piece
  | a :: l, piece => (hf piece a).andThen (foldl f hf l _)

theorem generatePop (ast : AST) (reg : Register) :
    ∀ (fuel : ℕ) (offset : ℤ) (type : TypeId) (piece : BytecodePiece),
      CodeExtends piece (generatePop ast reg fuel offset type piece) [] := by
  intro fuel
  induction fuel with
  | zero => exact fun _ _ piece => refl piece
  | succ fuel ih =>
      intro offset type piece
      unfold TinCompiler.generatePop
      split
      · exact refl piece
      · split
        · dsimp only
          split
          · exact (emitPop piece .a).andThen (emitMovMRDisp _ _ _ _ _)
          · exact emitPop piece .a
        · exact foldl _ (fun piece mem => ih _ _ piece) _ _

theorem generatePush (ast : AST) (reg : Register) :
    ∀ (fuel : ℕ) (offset : ℤ) (type : TypeId) (piece : BytecodePiece),
      CodeExtends piece (generatePush ast reg fuel offset type piece) [] := by
  intro fuel
  induction fuel with
  | zero => exact fun _ _ piece => refl piece
  | succ fuel ih =>
      intro offset type piece
      unfold TinCompiler.generatePush
      split
      · exact (emitMovRMDisp piece .a reg _ offset).andThen (emitPush _ .a)
      · exact foldl _ (fun piece mem => ih _ _ piece) _ _

theorem emitConversion (conversion : Option CastType) :
    CodeExtends piece (emitConversion conversion piece) [] := by
  cases conversion with
  | none => exact refl piece
  | some castType => exact ((emitPop piece .a).andThen (emit _ rfl)).andThen (emitPush _ .a)

theorem emitElement (size : ℕ) : CodeExtends piece (emitElement size piece) [] :=
  ((emitLi piece .c size).andThen (emit _ rfl)).andThen (emit _ rfl)

theorem emitLoadPointer (place : Place) : CodeExtends piece (emitLoadPointer place piece) [] :=
  emitMovRMDisp piece _ _ 8 place.offset

theorem emitAddress (place : Place) : CodeExtends piece (emitAddress place piece) [] := by
  unfold TinCompiler.emitAddress
  dsimp only
  split
  · split
    · exact ((emitLi piece .b _).andThen (emit _ rfl)).andThen (emitPush _ .b)
    · exact (emit piece rfl).andThen (emitPush _ .b)
  · split
    · exact ((emitLi piece .a _).andThen (emit _ rfl)).andThen (emitPush _ .b)
    · exact emitPush piece .b

theorem emitStep (kind : StepKind) : CodeExtends piece (emitStep kind piece) [] := by
  have hload : CodeExtends piece ((piece.emitPop .b).emitMovRM .a .b 4) [] :=
    (emitPop piece .b).andThen (emit _ rfl)
  cases kind
  · exact ((hload.andThen (emitIncr _ .a 1)).andThen (emitPush _ .a)).andThen (emit _ rfl)
  · exact ((hload.andThen (emitPush _ .a)).andThen (emitIncr _ .a 1)).andThen (emit _ rfl)
  · exact ((hload.andThen (emitIncr _ .a 1)).andThen (emitPush _ .a)).andThen (emit _ rfl)
  · exact ((hload.andThen (emitPush _ .a)).andThen (emitIncr _ .a (-1))).andThen (emit _ rfl)

theorem emitBinary (ast : AST) (kind : BinaryKind) (ltype rtype : TypeId) (isFloat : Bool) :
    CodeExtends piece (emitBinary ast kind ltype rtype isFloat piece) [] := by
  have hcast : ∀ (b : Bool) (reg : Register) (piece : BytecodePiece),
      CodeExtends piece (if b then piece.emitCast reg .intFloat else piece) [] := by
    intro b reg piece
    split
    · exact emit piece rfl
    · exact refl piece
  have hoperator : ∀ (size : ℕ) (piece : BytecodePiece),
      CodeExtends piece (emitOperator kind size isFloat piece) [] := by
    intro size piece
    rw [emitOperator_eq]
    cases kind <;> exact emit piece rfl
  exact (((((emitPop piece .d).andThen (hcast _ .d _)).andThen (emitPop _ .a)).andThen
    (hcast _ .a _)).andThen (hoperator _ _)).andThen (emitPush _ .a)

/-- The call behind its arguments. -/
theorem emitCallSequence (ast : AST) (f : ℕ) (function : ASTFunction) (argDiff : ℤ) :
    CodeExtends piece (emitCallSequence ast f function argDiff piece) [f] := by
  have hcall := ((emit piece rfl : CodeExtends piece (piece.emitMovRR .b .sp) []).andThen
    (foldl _ (fun piece _ => generatePop ast .b _ _ _ piece) function.parameters.reverse _)).trans
    (emitCall (popArguments ast argDiff function.parameters (piece.emitMovRR .b .sp)) f)
  unfold TinCompiler.emitCallSequence
  dsimp only
  split
  · exact (hcall.trans ((emit _ rfl).andThen (emitIncr _ .sp _))).trans
      (generatePush ast .b _ _ _ _)
  · exact hcall.trans (emitIncr _ .sp _)

end CodeExtends

end TinCompiler
