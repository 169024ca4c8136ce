import TinCompiler.Compiler.Invariant
import TinCompiler.Generator.FinalRet
import TinCompiler.Generator.Registers
import TinCompiler.Generator.Relocations

/-!
# Linked programs

The functions are generated one after the other, and then the relocations are applied.  The
code of a function that is accepted is closed: its paths come to instructions with their
immediates, or, where no `ret` catches the end of the body, behind it.  Relocations change the
immediates of calls only, so that the linked pieces are closed, too, and their calls name
pieces and natives.  So the machine executes nothing but instructions that were emitted
(`CompiledProgram.runs_in_code`).
-/

namespace TinCompiler

/-! ## The paths of a function -/

namespace AcceptedFunction

variable (F : AcceptedFunction)

/-- The block of the body is completed, and there is no `ret` behind it. -/
def FallsOff : Prop := F.control.completes = true ∧ ¬ F.AddsRet

theorem meets_start :
    F.graph.Meets True (fun j => F.FallsOff ∧ j = F.cells.length) 0 := by
  obtain ⟨l, hseg, hlaid⟩ := F.laid
  refine hseg.meets (((hlaid.meets F.control).mono fun _ => trivial).trans fun j hj => ?_)
  rcases hj with ⟨_, _, hloop, -⟩ | ⟨hcompletes, rfl⟩
  · cases hloop
  · by_cases hadds : F.AddsRet
    · exact FlowGraph.Meets.trans (.inr (F.holds_bodyEnd hadds)) fun _ h => h.elim
    · exact .inl ⟨⟨hcompletes, hadds⟩, (F.length_cells_of_not_addsRet hadds).symm⟩

/-- A path comes to an instruction, or falls off. -/
theorem cell_of_reaches {i : ℕ} (h : Reaches F.cells i) :
    (∃ inst, F.cells[i]? = some (.inst inst)) ∨ (F.FallsOff ∧ i = F.cells.length) := by
  rw [reaches_iff (Backs F.cells F.finish.blocks)] at h
  refine F.meets_start.of_reaches (fun j hj hcode => ?_) h
  have hlt : j < F.cells.length := lt_of_code hcode
  omega

end AcceptedFunction

namespace AcceptedFunction

/-- It is this function, generated with these tables. -/
def At (F : AcceptedFunction) (s : Generation) (f : ℕ) : Prop :=
  (F.ast, F.bytecode, F.reporter) = s ∧ F.f = f

/-- The tables and the index determine the function. -/
theorem At.unique {F F' : AcceptedFunction} {s : Generation} {f : ℕ}
    (h : F.At s f) (h' : F'.At s f) : F = F' := by
  obtain ⟨ast, f₁, bytecode, reporter, body, prim, isNative, hasBody, accepted⟩ := F
  obtain ⟨ast', f₂, bytecode', reporter', body', prim', isNative', hasBody', accepted'⟩ := F'
  obtain ⟨rfl, rfl⟩ := h
  obtain ⟨heq, rfl⟩ := h'
  obtain ⟨rfl, rfl, rfl⟩ : ast' = ast ∧ bytecode' = bytecode ∧ reporter' = reporter := by
    simpa using heq
  obtain rfl : body = body' := Option.some.inj (hasBody.symm.trans hasBody')
  rfl

theorem At.finish_eq {F : AcceptedFunction} {s : Generation} {f : ℕ} (h : F.At s f) :
    s.finish f = F.finish := by
  obtain ⟨rfl, rfl⟩ := h
  rw [Generation.finish_eq F.hasBody, generateFunctionCode_snd]
  rfl

theorem At.cells_eq {F : AcceptedFunction} {s : Generation} {f : ℕ} (h : F.At s f) :
    F.cells = (s.finish f).piece.instructions := by
  rw [h.finish_eq]
  rfl

end AcceptedFunction

/-! ## Relocated code -/

/-- An instruction has the immediate that it reads behind it. -/
theorem exists_imm_of_hasImmediate {ops : List Op}
    (himm : ∀ op ∈ ops, op.inst.hasImmediate = op.imm.isSome) {inst : Instruction}
    (hinst : inst.hasImmediate = true) : ∀ {p : ℕ},
    (Op.flatten ops)[p]? = some (.inst inst) → ∃ v, (Op.flatten ops)[p + 1]? = some (.imm v) := by
  induction ops with
  | nil => simp
  | cons op ops ih =>
      intro p hp
      have hop := himm op (List.mem_cons_self ..)
      have hrest := fun op hmem => himm op (List.mem_cons_of_mem _ hmem)
      obtain ⟨inst', _ | v⟩ := op
      · cases p with
        | zero =>
            cases hp
            exact absurd (hop.symm.trans hinst) (by simp)
        | succ p => exact ih hrest hp
      · rcases p with _ | _ | p
        · exact ⟨v, rfl⟩
        · cases hp
        · exact ih hrest hp

/-- The positions are those of the instructions. -/
theorem mem_positions {ops : List Op} : ∀ {start k : ℕ}, k ∈ Op.positions start ops ↔
    ∃ p, k = start + p ∧ ∃ inst, (Op.flatten ops)[p]? = some (.inst inst) := by
  induction ops with
  | nil => simp [Op.positions]
  | cons op ops ih =>
      intro start k
      rw [Op.positions, List.mem_cons, ih, Op.flatten_cons]
      obtain ⟨inst, _ | v⟩ := op
      · constructor
        · rintro (rfl | ⟨p, rfl, hp⟩)
          · exact ⟨0, rfl, inst, rfl⟩
          · exact ⟨p + 1, Nat.add_right_comm start 1 p, hp⟩
        · rintro ⟨_ | p, rfl, hp⟩
          · exact .inl rfl
          · exact .inr ⟨p, (Nat.add_right_comm start 1 p).symm, hp⟩
      · constructor
        · rintro (rfl | ⟨p, rfl, hp⟩)
          · exact ⟨0, rfl, inst, rfl⟩
          · exact ⟨p + 2, Nat.add_right_comm start 2 p, hp⟩
        · rintro ⟨_ | _ | p, rfl, inst', hp⟩
          · exact .inl rfl
          · cases hp
          · exact .inr ⟨p, (Nat.add_right_comm start 2 p).symm, inst', hp⟩

namespace Linked

variable {piece : BytecodePiece} {ops : List Op} {functions : ℕ → ASTFunction} {i : ℕ}

theorem mem_indexOfNonImmediates (h : Linked piece ops) : i ∈ piece.indexOfNonImmediates ↔
    ∃ inst, piece.instructions[i]? = some (.inst inst) := by
  rw [h.assembles.positions, h.assembles.instructions, mem_positions]
  simp

/-- Instructions are not relocated. -/
theorem inst_relocate (h : Linked piece ops) {inst : Instruction} :
    (relocate functions piece.relocations piece.instructions)[i]? = some (.inst inst) ↔
      piece.instructions[i]? = some (.inst inst) := by
  by_cases hi : i ∈ piece.relocations.map Prod.snd
  · obtain ⟨v, hv⟩ := h.immAt hi
    obtain ⟨rel, hrel, rfl⟩ := List.mem_map.mp hi
    rw [getElem?_relocate_of_mem h.nodup hrel (List.getElem?_eq_some_iff.mp hv).1, hv]
    simp
  · rw [getElem?_relocate_of_notMem hi]

/-- Immediates of other instructions than calls are not relocated. -/
theorem getElem?_relocate_succ (h : Linked piece ops) {inst : Instruction}
    (hinst : piece.instructions[i]? = some (.inst inst)) (hcall : inst ≠ .call) :
    (relocate functions piece.relocations piece.instructions)[i + 1]? =
      piece.instructions[i + 1]? := by
  refine getElem?_relocate_of_notMem fun hi => hcall ?_
  obtain ⟨p, heq, hp⟩ := (h.mem_iff _).mp hi
  obtain rfl : i = p := Nat.succ.inj heq
  exact Cell.inst.inj (Option.some.inj (hinst.symm.trans hp))

theorem imm_relocate (h : Linked piece ops) {inst : Instruction}
    (hinst : piece.instructions[i]? = some (.inst inst)) (himm : inst.hasImmediate = true) :
    ∃ v, (relocate functions piece.relocations piece.instructions)[i + 1]? = some (.imm v) := by
  rw [h.assembles.instructions] at hinst
  obtain ⟨v, hv⟩ := exists_imm_of_hasImmediate h.imm himm hinst
  rw [← h.assembles.instructions] at hv
  by_cases hi : i + 1 ∈ piece.relocations.map Prod.snd
  · obtain ⟨rel, hrel, heq⟩ := List.mem_map.mp hi
    rw [← heq, getElem?_relocate_of_mem h.nodup hrel (heq ▸ (List.getElem?_eq_some_iff.mp hv).1)]
    exact ⟨_, rfl⟩
  · exact ⟨v, (getElem?_relocate_of_notMem hi).trans hv⟩

/-- The flow is the same. -/
theorem flowOf_relocate (h : Linked piece ops) (i : ℕ) :
    flowOf (relocate functions piece.relocations piece.instructions) i =
      flowOf piece.instructions i := by
  have htarget : ∀ {inst : Instruction}, piece.instructions[i]? = some (.inst inst) →
      inst ≠ .call → jumpTarget (relocate functions piece.relocations piece.instructions) i =
        jumpTarget piece.instructions i := by
    intro inst hinst hcall
    rw [jumpTarget, h.getElem?_relocate_succ hinst hcall, length_relocate, jumpTarget]
  cases hcell : piece.instructions[i]? with
  | none =>
      have hnone : (relocate functions piece.relocations piece.instructions)[i]? = none := by
        rw [List.getElem?_eq_none_iff, length_relocate]
        exact List.getElem?_eq_none_iff.mp hcell
      rw [flowOf, flowOf, hcell, hnone]
  | some cell =>
      cases cell with
      | inst inst =>
          rw [flowOf, flowOf, h.inst_relocate.mpr hcell, hcell]
          cases inst with
          | jmp | jz => rw [htarget hcell (by simp)]
          | _ => rfl
      | imm v =>
          have hall : ∀ inst, (relocate functions piece.relocations piece.instructions)[i]? ≠
              some (.inst inst) := by
            intro inst hinst
            rw [h.inst_relocate, hcell] at hinst
            cases hinst
          rw [flowOf, flowOf, hcell]
          split <;> first | exact absurd ‹_› (hall _) | rfl

theorem flowNext_relocate (h : Linked piece ops) (i : ℕ) :
    flowNext (relocate functions piece.relocations piece.instructions) i =
      flowNext piece.instructions i := by
  rw [flowNext_eq, flowNext_eq, h.flowOf_relocate]

theorem reaches_relocate (h : Linked piece ops) :
    Reaches (relocate functions piece.relocations piece.instructions) i ↔
      Reaches piece.instructions i := by
  simp only [Reaches, h.flowNext_relocate]

end Linked

/-! ## Programs -/

/-- Functions that are generated in this order, without a report. -/
structure CompiledProgram where
  tables : Generation
  order : List ℕ
  complete : Complete tables order
  empty : tables.2.1.pieces = []
  prim : tables.1.HasPrimitives
  accepted : (generateFunctions order tables).2.2.errors = 0

namespace CompiledProgram

variable (P : CompiledProgram) {i f : ℕ}

/-- The tables when the function at this place of the order is generated. -/
def before (i : ℕ) : Generation := generateFunctions (P.order.take i) P.tables

def after : Generation := generateFunctions P.order P.tables

/-- The bytecode once the relocations are applied. -/
def linked : Bytecode := P.after.2.1.applyRelocations P.after.1

/-- The piece that was generated for the function. -/
def pieceOf (i f : ℕ) : BytecodePiece := ((P.before i).finish f).piece

theorem after_eq (hi : P.order[i]? = some f) : P.after = generateFunctions (P.order.drop (i + 1))
    (generateFunction (P.before i).1 f (P.before i).2.1 (P.before i).2.2) := by
  have hlt := (List.getElem?_eq_some_iff.mp hi).1
  have hsplit : P.order = P.order.take i ++ f :: P.order.drop (i + 1) := by
    have hdrop := List.drop_eq_getElem_cons hlt
    rw [(List.getElem?_eq_some_iff.mp hi).2] at hdrop
    rw [← hdrop, List.take_append_drop]
  unfold after before
  conv_lhs => rw [hsplit]
  simp only [generateFunctions, List.foldl_append, List.foldl_cons]

/-- The function is as it was in the beginning. -/
theorem functions_before (hi : P.order[i]? = some f) :
    (P.before i).1.functions f = P.tables.1.functions f := by
  have hlt := (List.getElem?_eq_some_iff.mp hi).1
  have hfront : Generation.GeneratesAll P.tables (P.order.take i) :=
    ⟨P.complete.nodup.sublist (List.take_sublist _ _),
      fun g hg => P.complete.each g (List.mem_of_mem_take hg)⟩
  refine (Generation.run_generateFunctions _ hfront).others f fun hmem => ?_
  obtain ⟨j, hj⟩ := List.getElem?_of_mem hmem
  have hlen := (List.getElem?_eq_some_iff.mp hj).1
  rw [List.length_take] at hlen
  rw [List.getElem?_take_of_lt (by omega)] at hj
  obtain rfl : i = j := (List.getElem?_inj hlt P.complete.nodup).mp (hi.trans hj.symm)
  omega

theorem generates (hi : P.order[i]? = some f) : (P.before i).Generates f := by
  unfold Generation.Generates
  rw [P.functions_before hi]
  exact P.complete.each f (List.mem_of_getElem? hi)

/-- Each function is accepted. -/
theorem exists_accepted (hi : P.order[i]? = some f) :
    ∃ F : AcceptedFunction, F.At (P.before i) f := by
  have hgenerates := P.generates hi
  obtain ⟨body, hbody⟩ := Option.isSome_iff_exists.mp hgenerates.2
  have hprim : (P.before i).1.HasPrimitives := by
    have hkept := (Compiler.kept_generateFunctions (P.order.take i) P.tables).types
    intro j hj
    exact (congrFun hkept.typeInfos j).trans (P.prim j hj)
  have hlater : (generateFunction (P.before i).1 f (P.before i).2.1 (P.before i).2.2).2.2.errors ≤
      P.after.2.2.errors := by
    rw [P.after_eq hi]
    exact (Compiler.kept_generateFunctions (P.order.drop (i + 1)) _).errors
  exact ⟨⟨(P.before i).1, f, (P.before i).2.1, (P.before i).2.2, body, hprim, hgenerates.1, hbody,
    Nat.le_zero.mp (Nat.le_trans hlater (Nat.le_of_eq P.accepted))⟩, rfl, rfl⟩

theorem length_linked : P.linked.pieces.length = P.order.length := by
  have hrun := Generation.run_generateFunctions P.order P.complete.toGeneratesAll
  have hlength := hrun.length
  rw [P.empty, List.length_nil, Nat.zero_add] at hlength
  simpa [linked, after, Bytecode.applyRelocations] using hlength

theorem getElem?_linked (hi : P.order[i]? = some f) :
    P.linked.pieces[i]? = some ((P.pieceOf i f).applyRelocations P.after.1.functions) := by
  have hrun := Generation.run_generateFunctions P.order P.complete.toGeneratesAll
  have hpiece := hrun.pieces i f hi
  rw [P.empty, List.length_nil, Nat.zero_add] at hpiece
  simp [linked, after, pieceOf, before, Bytecode.applyRelocations, hpiece]

theorem compiled (hi : P.order[i]? = some f) :
    Generation.Compiled ((P.before i).finish f) ((P.before i).sites f) ∧
      ∀ name scopeId, ((P.before i).finish f).ast.findFunction name scopeId =
        P.tables.1.findFunction name scopeId :=
  (Generation.run_generateFunctions P.order P.complete.toGeneratesAll).compiled i f hi

/-- The linked code of the function. -/
def codeOf (i f : ℕ) : List Cell :=
  ((P.pieceOf i f).applyRelocations P.after.1.functions).instructions

theorem tame_codeOf (hi : P.order[i]? = some f) : TameCells (P.codeOf i f) := by
  intro inst hmem
  obtain ⟨⟨ops, hlinked⟩, -⟩ := (P.compiled hi).1
  obtain ⟨p, hp⟩ := List.getElem?_of_mem hmem
  have hinst : (P.pieceOf i f).instructions[p]? = some (.inst inst) := hlinked.inst_relocate.mp hp
  obtain ⟨body, hbody⟩ := Option.isSome_iff_exists.mp (P.generates hi).2
  have htame : (P.pieceOf i f).Tame := by
    rw [pieceOf, Generation.finish_eq hbody]
    exact tame_generateFunctionCode _ _ _ _ _
  exact htame inst (List.mem_of_getElem? hinst)

/-- What the immediate of a call is once the relocations are applied. -/
theorem call_codeOf (hi : P.order[i]? = some f) {p : ℕ} {v : ℤ}
    (hcall : (P.codeOf i f)[p]? = some (.inst .call))
    (himm : (P.codeOf i f)[p + 1]? = some (.imm v)) : v < 0 ∨ (0 < v ∧ v ≤ P.order.length) := by
  obtain ⟨⟨⟨ops, hlinked⟩, compiled, -, -, hcalls⟩, hfound⟩ := P.compiled hi
  have hcall' : (P.pieceOf i f).instructions[p]? = some (.inst .call) :=
    hlinked.inst_relocate.mp hcall
  obtain ⟨rel, hrel, hindex⟩ := List.mem_map.mp ((hlinked.mem_iff (p + 1)).mpr ⟨p, rfl, hcall'⟩)
  obtain ⟨w, hw⟩ := hlinked.immAt (List.mem_map_of_mem hrel)
  have hvalue : (P.codeOf i f)[rel.2]? =
      some (.imm (P.after.1.functions rel.1).callImmediate) :=
    getElem?_relocate_of_mem hlinked.nodup hrel (List.getElem?_eq_some_iff.mp hw).1
  rw [hindex, himm] at hvalue
  obtain rfl := Cell.imm.inj (Option.some.inj hvalue)
  obtain ⟨site, hsite⟩ : ∃ site : CallSite,
      ((P.before i).finish f).ast.findFunction site.2 site.1 = some rel.1 := by
    obtain ⟨j, hj⟩ := List.getElem?_of_mem hrel
    obtain ⟨hlt, hget⟩ := List.getElem?_eq_some_iff.mp hj
    have hsite := hcalls.get (i := j) (by rw [hcalls.length_eq]; exact hlt) hlt
    exact ⟨_, by rw [← hget]; exact hsite⟩
  rw [hfound] at hsite
  rcases standsFor_callImmediate P.complete P.empty (P.complete.found _ _ _ hsite) with
    ⟨hpos, hget⟩ | ⟨hneg, -⟩
  · have hlt := (List.getElem?_eq_some_iff.mp hget).1
    exact .inr ⟨hpos, by unfold after; omega⟩
  · exact .inl hneg

theorem closedCells (hi : P.order[i]? = some f) : ClosedCells P.order.length (P.codeOf i f) where
  tame := P.tame_codeOf hi
  reaches := by
    intro p hp
    obtain ⟨⟨ops, hlinked⟩, -⟩ := (P.compiled hi).1
    obtain ⟨F, hF⟩ := P.exists_accepted hi
    have hcells : F.cells = (P.pieceOf i f).instructions := hF.cells_eq
    have hreaches : Reaches F.cells p := hcells ▸ hlinked.reaches_relocate.mp hp
    have hlength : (P.codeOf i f).length = F.cells.length := by
      rw [hcells]
      exact length_relocate
    rcases F.cell_of_reaches hreaches with ⟨inst, hinst⟩ | ⟨-, hend⟩
    · rw [hcells] at hinst
      exact .inr ⟨inst, hlinked.inst_relocate.mpr hinst, hlinked.imm_relocate hinst⟩
    · exact .inl (hend.trans hlength.symm)
  calls := fun p v hcall himm => P.call_codeOf hi hcall himm

/-! ## Running -/

/-- No `ret` catches the end of this function. -/
def FallsOff (i f : ℕ) : Prop := ∃ F : AcceptedFunction, F.At (P.before i) f ∧ F.FallsOff

/-- The program is loaded; it fits into the types of the machine. -/
structure Loads (vm : VirtualMachine) : Prop where
  pieces : vm.pieces = P.linked.pieces.map BytecodePiece.instructions
  fits : vm.FitsInt
  natives : vm.NativesKeep

variable {P} {vm : VirtualMachine}

theorem Loads.exists_code (h : P.Loads vm) {cells : List Cell}
    (hpiece : vm.pieces[i]? = some cells) : ∃ f, P.order[i]? = some f ∧ cells = P.codeOf i f := by
  rw [h.pieces, List.getElem?_map] at hpiece
  obtain ⟨piece, hlinked, rfl⟩ := Option.map_eq_some_iff.mp hpiece
  have hlt := (List.getElem?_eq_some_iff.mp hlinked).1
  rw [P.length_linked] at hlt
  have hf : P.order[i]? = some P.order[i] := List.getElem?_eq_getElem hlt
  obtain rfl := Option.some.inj (hlinked.symm.trans (P.getElem?_linked hf))
  exact ⟨_, hf, rfl⟩

theorem Loads.closed (h : P.Loads vm) : vm.Closed := by
  intro cells hmem
  obtain ⟨i, hget⟩ := List.getElem?_of_mem hmem
  obtain ⟨f, hi, rfl⟩ := h.exists_code hget
  have hlength : vm.pieces.length = P.order.length := by
    rw [h.pieces, List.length_map, P.length_linked]
  rw [hlength]
  exact P.closedCells hi

/-- Where a path comes to in linked code. -/
theorem cell_of_reaches (hi : P.order[i]? = some f) {p : ℕ} (h : Reaches (P.codeOf i f) p) :
    p ∈ (P.pieceOf i f).indexOfNonImmediates ∨
      (P.FallsOff i f ∧ p = (P.pieceOf i f).instructions.length) := by
  obtain ⟨⟨ops, hlinked⟩, -⟩ := (P.compiled hi).1
  obtain ⟨F, hF⟩ := P.exists_accepted hi
  have hcells : F.cells = (P.pieceOf i f).instructions := hF.cells_eq
  have hreaches : Reaches F.cells p := hcells ▸ hlinked.reaches_relocate.mp h
  rw [← hcells]
  rcases F.cell_of_reaches hreaches with ⟨inst, hinst⟩ | ⟨hoff, hend⟩
  · rw [hcells] at hinst
    exact .inl (hlinked.mem_indexOfNonImmediates.mpr ⟨inst, hinst⟩)
  · exact .inr ⟨⟨F, hF, hoff⟩, hend⟩

/-- `fun first() { second(); }` and `fun second() { }` -/
def twoFunctions : CompiledProgram where
  tables := (AST.twoFunctions, {}, {})
  order := [12, 11]
  complete := AST.complete_twoFunctions
  empty := rfl
  prim := fun _ _ => rfl
  accepted := by decide +kernel

end CompiledProgram

end TinCompiler
