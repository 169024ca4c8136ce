import TinCompiler.Generator.Straight

/-!
# The block of a body and its code

`controlOfBody` follows `generateBody`: what the generator does not get to, behind a
statement that leaves its block or behind a declaration that it gives up, is not part of the
block.  `Lays` says that the code of a statement lies as the block wants it.  Here this is
proved of the statements with bodies, if it is true of the bodies.
-/

namespace TinCompiler

open GeneratorM

/-! ## The blocks -/

/-- The context in which the body behind a condition is generated. -/
def branchContext (condition : ASTExpression) (statement : String) (c : GeneratorContext) :
    GeneratorContext :=
  (generateJz (generateCondition condition statement c).2).2

/-- The context in which the body of an `else` is generated. -/
def elseContext (condition : ASTExpression) (body : ASTBody) (c : GeneratorContext) :
    GeneratorContext :=
  let c₁ := branchContext condition "if" c
  (fixJump (generateJz (generateCondition condition "if" c).2).1
    (generateJmp (generateBody body c₁).2).2).2

mutual

/-- The block that `generateBody` makes code for in the context `c`. -/
def controlOfBody : ASTBody → GeneratorContext → Control
  | .mk scopeId statements, c =>
      controlOfStatements c.currentFrameOffset statements (setScope scopeId c).2

def controlOfStatements (prevFrameOffset : ℤ) : List ASTStatement → GeneratorContext → Control
  | [], _ => .done
  | statement :: rest, c =>
      let run := generateStatement prevFrameOffset statement (recordStart c).2
      controlOfStatement statement (recordStart c).2
        (if run.1 = .next then controlOfStatements prevFrameOffset rest run.2 else .done)

/-- A statement and the block of the rest. -/
def controlOfStatement : ASTStatement → GeneratorContext → Control → Control
  | .expression _ _, _, rest => .plain rest
  | .globalDeclaration _ _ _ _, _, rest => .plain rest
  | .constDeclaration _ _ _ _, _, rest => .plain rest
  | .varDeclaration _ _ _ _, _, rest => .plain rest
  | .while condition body _, c, rest =>
      .loop (controlOfBody body (branchContext condition "while" (pushLoop c).2)) rest
  | .ifElse condition body none _, c, rest =>
      .ifThen (controlOfBody body (branchContext condition "if" c)) rest
  | .ifElse condition body (some elseBody) _, c, rest =>
      .ifElse (controlOfBody body (branchContext condition "if" c))
        (controlOfBody elseBody (elseContext condition body c)) rest
  | .break _, _, _ => .breaks
  | .continue _, _, _ => .continues
  | .return e _, _, _ => .returns e.isSome

end

/-- Where `continue` and `break` go. -/
def loopTargets (breakPc : ℕ) (loops : List LoopScope) : Option (ℕ × ℕ) :=
  loops.getLast?.map fun loop => (loop.continuePc, breakPc)

@[simp] theorem loopTargets_concat (breakPc : ℕ) (loops : List LoopScope) (loop : LoopScope) :
    loopTargets breakPc (loops ++ [loop]) = some (loop.continuePc, breakPc) := by
  simp [loopTargets]

theorem LoopsGrow.loopTargets {c c' : GeneratorContext} (h : LoopsGrow c c') (breakPc : ℕ) :
    loopTargets breakPc c'.loopScopes = loopTargets breakPc c.loopScopes := by
  rcases h with heq | ⟨init, loop, new, hold, hnew, -⟩
  · rw [heq]
  · rw [hold, hnew, loopTargets_concat, loopTargets_concat]

/-- From `c` to `c'` the code of a block was emitted. -/
def LaysBlock (c c' : GeneratorContext) (control : Control) : Prop :=
  Ran c c' ∧ ∀ (cells : List Cell) (blocks : List Block) (pending : Set ℕ) (breakPc : ℕ),
    Finishes cells blocks pending breakPc c' → PendingIn c c' pending →
      Finishes cells blocks pending breakPc c ∧
        (pieceGraph cells blocks).Laid (loopTargets breakPc c.loopScopes) control c.words.length
          c'.words.length

/-- From `c` to `c'` the code of a statement was emitted; with the block of the rest behind it,
it makes a block. -/
def Lays (c c' : GeneratorContext) (control : Control → Control) : Prop :=
  Ran c c' ∧ ∀ (cells : List Cell) (blocks : List Block) (pending : Set ℕ) (breakPc : ℕ),
    Finishes cells blocks pending breakPc c' → PendingIn c c' pending →
      Finishes cells blocks pending breakPc c ∧ ∀ (rest : Control) (t : ℕ),
        (pieceGraph cells blocks).Laid (loopTargets breakPc c.loopScopes) rest c'.words.length t →
        (pieceGraph cells blocks).Laid (loopTargets breakPc c.loopScopes) (control rest)
          c.words.length t

section Statements

variable {c c₁ c₂ c₃ c₄ c₅ c₆ c₇ c₈ : GeneratorContext}

theorem Straightly.lays (h : Straightly c c₁) : Lays c c₁ .plain := by
  refine ⟨h.ran, fun cells blocks pending breakPc hfin _ => ⟨h.back hfin, fun rest t hrest => ?_⟩⟩
  obtain ⟨l, hseg, -⟩ := h.segment blocks hfin.agrees
  exact ⟨l, _, hseg, hrest⟩

/-- A statement and the statements behind it. -/
theorem Lays.append {control : Control → Control} {rest : Control} (h : Lays c c₁ control)
    (hrest : LaysBlock c₁ c₂ rest) : LaysBlock c c₂ (control rest) := by
  refine ⟨h.1.trans hrest.1, fun cells blocks pending breakPc hfin hpending => ?_⟩
  obtain ⟨hfin₁, hlaid⟩ := hrest.2 cells blocks pending breakPc hfin
    (hpending.right h.1.words.length_le)
  obtain ⟨hfin, hlays⟩ := h.2 cells blocks pending breakPc hfin₁ (hpending.left hrest.1)
  rw [h.1.loops.loopTargets] at hlaid
  exact ⟨hfin, hlays rest _ hlaid⟩

theorem LaysBlock.done (h : Ready c) : LaysBlock c c .done :=
  ⟨.refl h, fun _ _ _ _ hfin _ => ⟨hfin, [], .nil _⟩⟩

/-- A statement behind which nothing was generated. -/
theorem Lays.last {control : Control → Control} (h : Lays c c₁ control) :
    LaysBlock c c₁ (control .done) :=
  h.append (.done h.1.ready)

/-! ### Conditions -/

theorem getElem?_first (words : List Word) (word word' : Word) :
    (words ++ [word, word'])[words.length]? = some word := by
  simp

theorem getElem?_second (words : List Word) (word word' : Word) :
    (words ++ [word, word'])[words.length + 1]? = some word' := by
  simp

/-- A `jz` with its target open. -/
theorem generateJz_ran (h : Ready c) : Ran c (generateJz c).2 ∧
    (generateJz c).2.words = c.words ++ [.branch, .arg 0] ∧ (generateJz c).1 = c.words.length + 1 := by
  have hsound : (⟨.jz .a, some 0⟩ : Op).Sound := ⟨rfl, by simp⟩
  obtain ⟨hran, hwords⟩ : Ran c (generateJz c).2 ∧
      (generateJz c).2.words = c.words ++ Op.words ⟨.jz .a, some 0⟩ :=
    h.emitOp hsound (fun ops hasm => hasm.emitWithImm _ _) rfl rfl rfl
  refine ⟨hran, hwords, ?_⟩
  rw [c.length_words]
  simp [generateJz, BytecodePiece.emitJzReloc, BytecodePiece.emit, BytecodePiece.getPc]

/-- A `jmp` with its target open. -/
theorem generateJmp_ran (h : Ready c) : Ran c (generateJmp c).2 ∧
    (generateJmp c).2.words = c.words ++ [.jump, .arg 0] ∧ (generateJmp c).1 = c.words.length + 1 := by
  have hsound : (⟨.jmp, some 0⟩ : Op).Sound := ⟨rfl, by simp⟩
  obtain ⟨hran, hwords⟩ : Ran c (generateJmp c).2 ∧
      (generateJmp c).2.words = c.words ++ Op.words ⟨.jmp, some 0⟩ :=
    h.emitOp hsound (fun ops hasm => hasm.emitWithImm _ _) rfl rfl rfl
  refine ⟨hran, hwords, ?_⟩
  rw [c.length_words]
  simp [generateJmp, BytecodePiece.emitJmpReloc, BytecodePiece.emit, BytecodePiece.getPc]

section Finished

variable {cells : List Cell} {blocks : List Block} {pending : Set ℕ} {breakPc r m : ℕ}

/-- The immediate at `r` gets its value; until then it was pending. -/
theorem fixJump_back {v : ℤ} (h : Ready c) (harg : c.words[r]? = some (.arg v))
    (hfin : Finishes cells blocks pending breakPc (fixJump r c).2) (hr : r ∉ pending) :
    (cells.map Cell.word)[r]? = some (.arg (c.words.length - r)) ∧
      Finishes cells blocks (insert r pending) breakPc c := by
  have hwords : (fixJump r c).2.words = fixWords c.words r := words_fixJumpHere c r
  have hagrees := hfin.agrees
  rw [hwords] at hagrees
  have hself : (fixWords c.words r)[r]? = some (.arg (c.words.length - r)) :=
    List.getElem?_set_self (List.getElem?_eq_some_iff.mp harg).1
  exact ⟨hagrees.exact hself hr, hfin.back (h.fixJumpHere harg) (hagrees.of_set harg)⟩

theorem length_fixJump (r : ℕ) (c : GeneratorContext) :
    (fixJump r c).2.words.length = c.words.length := by
  have hwords : (fixJump r c).2.words = fixWords c.words r := words_fixJumpHere c r
  rw [hwords, fixWords, List.length_set]

/-- A condition and the `jz` behind it, whose target is `m`. -/
theorem branch_back (hcond : Straightly c c₁)
    (hfin : Finishes cells blocks pending breakPc (generateJz c₁).2)
    (harg : (cells.map Cell.word)[c₁.words.length + 1]? =
      some (.arg (m - (c₁.words.length + 1 : ℕ)))) :
    Finishes cells blocks pending breakPc c ∧
      ∃ l, (pieceGraph cells blocks).Segment c.words.length l c₁.words.length ∧
        (pieceGraph cells blocks).Branches c₁.words.length (generateJz c₁).2.words.length m := by
  obtain ⟨hran, hwords, -⟩ := generateJz_ran hcond.ran.ready
  have hfin₁ : Finishes cells blocks pending breakPc c₁ :=
    hfin.back hran (hfin.agrees.of_append ⟨_, hwords.symm⟩)
  obtain ⟨l, hseg, -⟩ := hcond.segment blocks hfin₁.agrees
  have hbranch : (generateJz c₁).2.words[c₁.words.length]? = some .branch :=
    hwords ▸ getElem?_first c₁.words _ _
  have hlen : (generateJz c₁).2.words.length = c₁.words.length + 2 := by
    rw [hwords, List.length_append]
    rfl
  refine ⟨hcond.back hfin₁, l, hseg, ?_⟩
  rw [hlen]
  refine branches_of_branch (hfin.agrees.not_arg hbranch (by simp)) harg ?_
  push_cast
  omega

end Finished

/-- The immediate of the `jz` in the code of the body behind it. -/
theorem exists_arg_of_jz (hcond : Straightly c c₁) (hran : Ran (generateJz c₁).2 c₂) :
    ∃ v, c₂.words[c₁.words.length + 1]? = some (.arg v) := by
  obtain ⟨-, hwords, -⟩ := generateJz_ran hcond.ran.ready
  exact hran.words.arg (hwords ▸ getElem?_second c₁.words _ _)

theorem exists_arg_of_jmp (h : Ready c₁) (hran : Ran (generateJmp c₁).2 c₂) :
    ∃ v, c₂.words[c₁.words.length + 1]? = some (.arg v) := by
  obtain ⟨-, hwords, -⟩ := generateJmp_ran h
  exact hran.words.arg (hwords ▸ getElem?_second c₁.words _ _)

/-! ### The statements with bodies -/

theorem lays_ifThen {control : Control} (hcond : Straightly c c₁)
    (hbody : LaysBlock (generateJz c₁).2 c₃ control) :
    Lays c (fixJump (generateJz c₁).1 c₃).2 (.ifThen control) := by
  obtain ⟨hran₂, hwords₂, hr⟩ := generateJz_ran hcond.ran.ready
  obtain ⟨v, harg⟩ := exists_arg_of_jz hcond hbody.1
  rw [hr]
  have hlen₂ : (generateJz c₁).2.words.length = c₁.words.length + 2 := by
    rw [hwords₂, List.length_append]
    rfl
  have hlen₄ := length_fixJump (c₁.words.length + 1) c₃
  have hran₄ : Ran c₃ (fixJump (c₁.words.length + 1) c₃).2 := hbody.1.ready.fixJumpHere harg
  have hran := hcond.ran.trans (hran₂.trans (hbody.1.trans hran₄))
  have hle := hcond.length_le
  have hle₃ := hbody.1.words.length_le
  refine ⟨hran, fun cells blocks pending breakPc hfin hpending => ?_⟩
  have hnot : c₁.words.length + 1 ∉ pending := by
    refine hpending.not_mem (by omega) (by omega) fun hmem => ?_
    rcases hbody.1.loops.innerBreaks_cases hmem with hmem | hge
    · exact absurd (hcond.ran.ready.breaks _ hmem) (by omega)
    · omega
  obtain ⟨hvalue, hfin₃⟩ := fixJump_back hbody.1.ready harg hfin hnot
  obtain ⟨hfin₂, hlaid⟩ := hbody.2 _ _ _ _ hfin₃
    (((hpending.left hran₄).right (by omega)).insert (by omega))
  obtain ⟨hfin₀, l, hseg, hbranch⟩ := branch_back hcond hfin₂ hvalue
  refine ⟨hfin.back hran (hfin₀.agrees.restrict ?_), fun rest t hrest => ?_⟩
  · rintro r (rfl | hr) hlt
    · omega
    · exact hr
  · have hloops : (generateJz c₁).2.loopScopes = c.loopScopes := hcond.loops
    rw [hloops] at hlaid
    rw [hlen₄] at hrest
    exact ⟨l, _, _, _, hseg, hbranch, hlaid, hrest⟩

/-- The `jmp` at the end of a body, whose target is `m`. -/
theorem jump_back {cells : List Cell} {blocks : List Block} {pending : Set ℕ} {breakPc m : ℕ}
    (h : Ready c₁) (hfin : Finishes cells blocks pending breakPc (generateJmp c₁).2)
    (harg : (cells.map Cell.word)[c₁.words.length + 1]? =
      some (.arg (m - (c₁.words.length + 1 : ℕ)))) :
    Finishes cells blocks pending breakPc c₁ ∧
      (pieceGraph cells blocks).Jumps c₁.words.length m := by
  obtain ⟨hran, hwords, -⟩ := generateJmp_ran h
  have hjump : (generateJmp c₁).2.words[c₁.words.length]? = some .jump :=
    hwords ▸ getElem?_first c₁.words _ _
  refine ⟨hfin.back hran (hfin.agrees.of_append ⟨_, hwords.symm⟩),
    jumps_of_jump (hfin.agrees.not_arg hjump (by simp)) harg ?_⟩
  push_cast
  omega

theorem lays_ifElse {control control' : Control} (hcond : Straightly c c₁)
    (hbody : LaysBlock (generateJz c₁).2 c₃ control)
    (helse : LaysBlock (fixJump (generateJz c₁).1 (generateJmp c₃).2).2 c₆ control') :
    Lays c (fixJump (generateJmp c₃).1 c₆).2 (.ifElse control control') := by
  obtain ⟨hran₂, hwords₂, hr⟩ := generateJz_ran hcond.ran.ready
  obtain ⟨hran₄, hwords₄, hr'⟩ := generateJmp_ran hbody.1.ready
  rw [hr] at helse
  rw [hr']
  obtain ⟨v, harg⟩ := exists_arg_of_jz hcond (hbody.1.trans hran₄)
  have hran₅ : Ran (generateJmp c₃).2 (fixJump (c₁.words.length + 1) (generateJmp c₃).2).2 :=
    hran₄.ready.fixJumpHere harg
  obtain ⟨v', harg'⟩ := exists_arg_of_jmp hbody.1.ready (hran₅.trans helse.1)
  have hran₇ : Ran c₆ (fixJump (c₃.words.length + 1) c₆).2 := helse.1.ready.fixJumpHere harg'
  have hlen₂ : (generateJz c₁).2.words.length = c₁.words.length + 2 := by
    rw [hwords₂, List.length_append]
    rfl
  have hlen₄ : (generateJmp c₃).2.words.length = c₃.words.length + 2 := by
    rw [hwords₄, List.length_append]
    rfl
  have hlen₅ := length_fixJump (c₁.words.length + 1) (generateJmp c₃).2
  have hlen₇ := length_fixJump (c₃.words.length + 1) c₆
  have hran₃₇ := hran₄.trans (hran₅.trans (helse.1.trans hran₇))
  have hran := hcond.ran.trans (hran₂.trans (hbody.1.trans hran₃₇))
  have hle := hcond.length_le
  have hle₃ := hbody.1.words.length_le
  have hle₆ := helse.1.words.length_le
  refine ⟨hran, fun cells blocks pending breakPc hfin hpending => ?_⟩
  have hnot' : c₃.words.length + 1 ∉ pending := by
    refine hpending.not_mem (by omega) (by omega) fun hmem => ?_
    rcases helse.1.loops.innerBreaks_cases hmem with hmem | hge
    · exact absurd (hbody.1.ready.breaks _ hmem) (by omega)
    · omega
  have hnot : c₁.words.length + 1 ∉ insert (c₃.words.length + 1) pending := by
    rintro (heq | hmem)
    · omega
    refine hpending.not_mem (by omega) (by omega) (fun hmem => ?_) hmem
    rcases helse.1.loops.innerBreaks_cases hmem with hmem | hge
    · rcases hbody.1.loops.innerBreaks_cases hmem with hmem | hge
      · exact absurd (hcond.ran.ready.breaks _ hmem) (by omega)
      · omega
    · omega
  -- backwards through the code: the end of `else`, its start, the end of the body, the `jz`
  obtain ⟨hvalue', hfin₆⟩ := fixJump_back helse.1.ready harg' hfin hnot'
  obtain ⟨hfin₅, hlaid'⟩ := helse.2 _ _ _ _ hfin₆
    (((hpending.left hran₇).right (by omega)).insert (by omega))
  obtain ⟨hvalue, hfin₄⟩ := fixJump_back hran₄.ready harg hfin₅ hnot
  obtain ⟨hfin₃, hjump⟩ := jump_back hbody.1.ready hfin₄ hvalue'
  have hpending₃ : PendingIn (generateJz c₁).2 c₃ (insert (c₁.words.length + 1)
      (insert (c₃.words.length + 1) pending)) := by
    refine PendingIn.insert ?_ (by omega)
    rintro r (rfl | hr)
    · exact .inr (.inl (Nat.le_succ _))
    · exact (hpending.left hran₃₇).right (by omega) r hr
  obtain ⟨hfin₂, hlaid⟩ := hbody.2 _ _ _ _ hfin₃ hpending₃
  obtain ⟨hfin₀, l, hseg, hbranch⟩ := branch_back hcond hfin₂ hvalue
  refine ⟨hfin.back hran (hfin₀.agrees.restrict ?_), fun rest t hrest => ?_⟩
  · rintro r (rfl | rfl | hr) hlt
    · omega
    · omega
    · exact hr
  · have hloops : (generateJz c₁).2.loopScopes = c.loopScopes := hcond.loops
    have hloops' : loopTargets breakPc (fixJump (c₁.words.length + 1) (generateJmp c₃).2).2.loopScopes =
        loopTargets breakPc c.loopScopes :=
      (hbody.1.loops.loopTargets breakPc).trans (by rw [hloops])
    rw [hloops] at hlaid
    rw [hloops', hlen₅] at hlaid'
    rw [hlen₇] at hrest
    exact ⟨l, _, _, _, _, _, hseg, hbranch, hlaid, hjump, hlaid', hrest⟩

/-! ### Loops -/

/-- A jump back to a known instruction. -/
theorem emitJmp_ran (h : Ready c) (pc : ℕ) : Ran c (c.withPiece (c.piece.emitJmp pc)) ∧
    (c.withPiece (c.piece.emitJmp pc)).words =
      c.words ++ [.jump, .arg (pc - (c.words.length + 1 : ℕ))] := by
  have hvalue : (c.piece.emit .jmp).getPc = c.words.length + 1 := by
    rw [c.length_words]
    simp [BytecodePiece.emit, BytecodePiece.getPc]
  have hsound : (⟨.jmp, some (pc - (c.piece.emit .jmp).getPc : ℤ)⟩ : Op).Sound := ⟨rfl, by simp⟩
  obtain ⟨hran, hwords⟩ : Ran c (c.withPiece (c.piece.emitJmp pc)) ∧
      (c.withPiece (c.piece.emitJmp pc)).words =
        c.words ++ Op.words ⟨.jmp, some (pc - (c.piece.emit .jmp).getPc : ℤ)⟩ :=
    h.emitOp hsound (fun ops hasm => hasm.emitWithImm _ _) rfl rfl rfl
  exact ⟨hran, by rw [hwords, hvalue]; rfl⟩

/-- `fix_jump_here` on all breaks of a loop. -/
def fixBreaks (rs : List ℕ) (c : GeneratorContext) : GeneratorContext :=
  c.withPiece (rs.foldl BytecodePiece.fixJumpHere c.piece)

theorem length_fixBreaks (rs : List ℕ) : ∀ c : GeneratorContext,
    (fixBreaks rs c).words.length = c.words.length := by
  induction rs with
  | nil => exact fun _ => rfl
  | cons r rs ih => exact fun c => (ih (fixJump r c).2).trans (length_fixJump r c)

theorem fixBreaks_ran (rs : List ℕ) : ∀ {c : GeneratorContext}, Ready c →
    (∀ r ∈ rs, ∃ v, c.words[r]? = some (.arg v)) → Ran c (fixBreaks rs c) := by
  induction rs with
  | nil => exact fun h _ => .refl h
  | cons r rs ih =>
      intro c h hargs
      obtain ⟨v, harg⟩ := hargs r List.mem_cons_self
      have hran : Ran c (fixJump r c).2 := h.fixJumpHere harg
      refine hran.trans (ih hran.ready fun r' hr' => ?_)
      obtain ⟨v', harg'⟩ := hargs r' (List.mem_cons_of_mem _ hr')
      exact hran.words.arg harg'

/-- All of them get their values; until then they were pending. -/
theorem fixBreaks_back {cells : List Cell} {pending : Set ℕ} (rs : List ℕ) :
    ∀ {c : GeneratorContext}, Agrees cells pending (fixBreaks rs c).words →
      (∀ r ∈ rs, ∃ v, c.words[r]? = some (.arg v)) → (∀ r ∈ rs, r ∉ pending) →
      (∀ r ∈ rs, (cells.map Cell.word)[r]? = some (.arg (c.words.length - r))) ∧
        Agrees cells (pending ∪ {r | r ∈ rs}) c.words := by
  induction rs with
  | nil =>
      intro c hagrees _ _
      exact ⟨by simp, hagrees.mono Set.subset_union_left⟩
  | cons r rs ih =>
      intro c hagrees hargs hnot
      obtain ⟨v, harg⟩ := hargs r List.mem_cons_self
      have hwords : (fixJump r c).2.words = fixWords c.words r := words_fixJumpHere c r
      have hset : KeepsWords c.words (fixJump r c).2.words := hwords ▸ .set _ harg
      obtain ⟨hvalues, hrest⟩ := ih (c := (fixJump r c).2) hagrees
        (fun r' hr' => hset.arg (hargs r' (List.mem_cons_of_mem _ hr')).choose_spec)
        fun r' hr' => hnot r' (List.mem_cons_of_mem _ hr')
      rw [length_fixJump] at hvalues
      have hself : (fixJump r c).2.words[r]? = some (.arg (c.words.length - r)) := by
        rw [hwords]
        exact List.getElem?_set_self (List.getElem?_eq_some_iff.mp harg).1
      refine ⟨fun r' hr' => ?_, ?_⟩
      · by_cases hmem : r' ∈ rs
        · exact hvalues r' hmem
        · obtain rfl : r' = r := (List.mem_cons.mp hr').resolve_right hmem
          refine hrest.exact hself ?_
          rintro (hpending | hmem')
          · exact hnot r' hr' hpending
          · exact hmem hmem'
      · rw [hwords] at hrest
        refine (hrest.of_set harg).mono ?_
        rintro r' (rfl | hpending | hmem)
        · exact .inr List.mem_cons_self
        · exact .inl hpending
        · exact .inr (List.mem_cons_of_mem _ hmem)

theorem LoopsGrow.concat {init : List LoopScope} {loop : LoopScope} (h : LoopsGrow c c₁)
    (hloops : c.loopScopes = init ++ [loop]) : ∃ new,
      c₁.loopScopes = init ++ [{ loop with breaksToResolve := loop.breaksToResolve ++ new }] ∧
        ∀ r ∈ new, c.words.length ≤ r ∧ ∃ v, c₁.words[r]? = some (.arg v) := by
  rcases h with heq | ⟨init', loop', new, hold, hnew, hargs⟩
  · exact ⟨[], by rw [heq, hloops, List.append_nil], by simp⟩
  · obtain ⟨rfl, hloop⟩ := List.append_inj' (hloops.symm.trans hold) rfl
    obtain rfl := List.singleton_inj.mp hloop
    exact ⟨new, hnew, hargs⟩

/-- The innermost loop is left. -/
def leaveLoop (c : GeneratorContext) : GeneratorContext :=
  { c with loopScopes := c.loopScopes.dropLast }

theorem closeLoop_eq {index : ℕ} {loop : LoopScope} (h : c.loopScopes[index]? = some loop)
    (reloc : ℕ) : (closeLoop index reloc c).2 = leaveLoop (fixBreaks loop.breaksToResolve
      (fixJump reloc (c.withPiece (c.piece.emitJmp loop.continuePc))).2) := by
  unfold closeLoop
  rw [getContext_bind_apply, h]
  rfl

section CloseLoop

variable {init : List LoopScope} {k r : ℕ} {frame v : ℤ} {rs : List ℕ}

theorem closeLoop_eq_of_concat (hloops : c.loopScopes = init ++ [⟨k, frame, rs⟩]) (r : ℕ) :
    (closeLoop init.length r c).2 =
      leaveLoop (fixBreaks rs (fixJump r (c.withPiece (c.piece.emitJmp k))).2) := by
  have hlast : c.loopScopes[init.length]? = some ⟨k, frame, rs⟩ := by
    rw [hloops]
    exact List.getElem?_concat_length
  rw [closeLoop_eq hlast]

/-- Up to the loop that is left, the end of a loop is code like any other. -/
theorem closeLoop_ran (h : Ready c) (hloops : c.loopScopes = init ++ [⟨k, frame, rs⟩])
    (harg : c.words[r]? = some (.arg v)) (hargs : ∀ r ∈ rs, ∃ v, c.words[r]? = some (.arg v)) :
    Ran c { (closeLoop init.length r c).2 with loopScopes := c.loopScopes } ∧
      (closeLoop init.length r c).2.loopScopes = init ∧
      (closeLoop init.length r c).2.words.length = c.words.length + 2 := by
  rw [closeLoop_eq_of_concat hloops]
  obtain ⟨hran₁, hwords₁⟩ := emitJmp_ran h k
  obtain ⟨v', harg'⟩ := hran₁.words.arg harg
  have hran₂ : Ran _ (fixJump r (c.withPiece (c.piece.emitJmp k))).2 :=
    hran₁.ready.fixJumpHere harg'
  have hran₃ := fixBreaks_ran rs hran₂.ready fun r hr =>
    (hran₁.trans hran₂).words.arg (hargs r hr).choose_spec
  have hlen : (fixBreaks rs (fixJump r (c.withPiece (c.piece.emitJmp k))).2).words.length =
      c.words.length + 2 := by
    rw [length_fixBreaks, length_fixJump, hwords₁, List.length_append]
    rfl
  refine ⟨hran₁.trans (hran₂.trans hran₃), ?_, hlen⟩
  change c.loopScopes.dropLast = init
  rw [hloops, List.dropLast_concat]

/-- The condition and the breaks jump behind the loop, the end of the body jumps back. -/
theorem closeLoop_back {cells : List Cell} {blocks : List Block} {pending : Set ℕ} {breakPc : ℕ}
    (h : Ready c) (hloops : c.loopScopes = init ++ [⟨k, frame, rs⟩])
    (harg : c.words[r]? = some (.arg v)) (hargs : ∀ r ∈ rs, ∃ v, c.words[r]? = some (.arg v))
    (hfin : Finishes cells blocks pending breakPc (closeLoop init.length r c).2)
    (hr : r ∉ rs) (hnot : ∀ x, x = r ∨ x ∈ rs ∨ x = c.words.length + 1 → x ∉ pending) :
    (cells.map Cell.word)[r]? = some (.arg ((c.words.length + 2 : ℕ) - r)) ∧
      (pieceGraph cells blocks).Jumps c.words.length k ∧
      Finishes cells blocks (insert r (pending ∪ {r | r ∈ rs})) (c.words.length + 2) c := by
  obtain ⟨hran, -, hlen⟩ := closeLoop_ran h hloops harg hargs
  rw [closeLoop_eq_of_concat hloops] at hfin hran hlen
  obtain ⟨hran₁, hwords₁⟩ := emitJmp_ran h k
  have hloops₁ : (c.withPiece (c.piece.emitJmp k)).loopScopes = c.loopScopes := rfl
  generalize c.withPiece (c.piece.emitJmp k) = c₁ at hfin hran hlen hran₁ hwords₁ hloops₁
  obtain ⟨v', harg'⟩ := hran₁.words.arg harg
  have hran₂ : Ran c₁ (fixJump r c₁).2 := hran₁.ready.fixJumpHere harg'
  have hlen₁ : c₁.words.length = c.words.length + 2 := by
    rw [hwords₁, List.length_append]
    rfl
  have hlt : ∀ {x : ℕ} {v : ℤ}, c.words[x]? = some (.arg v) → x < c.words.length :=
    fun hx => (List.getElem?_eq_some_iff.mp hx).1
  -- the breaks
  obtain ⟨hvalues, hagrees₂⟩ := fixBreaks_back rs (c := (fixJump r c₁).2) hfin.agrees
    (fun x hx => (hran₁.trans hran₂).words.arg (hargs x hx).choose_spec)
    fun x hx => hnot x (.inr (.inl hx))
  have hlen₂ : (fixJump r c₁).2.words.length = c.words.length + 2 :=
    (length_fixJump r c₁).trans hlen₁
  rw [hlen₂] at hvalues
  have hfin₂ : Finishes cells blocks (pending ∪ {r | r ∈ rs}) (c.words.length + 2)
      (fixJump r c₁).2 := by
    refine ⟨hagrees₂, fun x hx => ?_, ?_⟩
    · have hinner : innerBreaks c₁.loopScopes = rs := by
        rw [hloops₁, hloops, innerBreaks_concat]
      exact hvalues x (hinner ▸ hx)
    · obtain ⟨later, heq, hlater⟩ := hfin.blocks
      refine ⟨later, heq, fun b hb => ⟨?_, (hlater b hb).2⟩⟩
      exact Nat.le_trans (Nat.le_of_eq (length_fixBreaks rs _).symm) (hlater b hb).1
  -- the condition
  obtain ⟨hvalue, hfin₁⟩ := fixJump_back hran₁.ready harg' hfin₂ (by
    rintro (hmem | hmem)
    · exact hnot r (.inl rfl) hmem
    · exact hr hmem)
  rw [hlen₁] at hvalue
  -- the jump back
  have hjump : c₁.words[c.words.length]? = some .jump := hwords₁ ▸ getElem?_first c.words _ _
  have htarget : c₁.words[c.words.length + 1]? = some (.arg (k - (c.words.length + 1 : ℕ))) :=
    hwords₁ ▸ getElem?_second c.words _ _
  refine ⟨hvalue, jumps_of_jump (hfin₁.agrees.not_arg hjump (by simp))
    (hfin₁.agrees.exact htarget ?_) (by push_cast; omega),
    hfin₁.back hran₁ (hfin₁.agrees.of_append ⟨_, hwords₁.symm⟩)⟩
  rintro (heq | hmem | hmem)
  · exact absurd (hlt harg) (by omega)
  · exact hnot _ (.inr (.inr rfl)) hmem
  · exact absurd (hlt (hargs _ hmem).choose_spec) (by omega)

end CloseLoop

theorem lays_while {control : Control} (h : Ready c) (hcond : Straightly (pushLoop c).2 c₁)
    (hbody : LaysBlock (generateJz c₁).2 c₃ control) :
    Lays c (closeLoop (pushLoop c).1 (generateJz c₁).1 c₃).2 (.loop control) := by
  obtain ⟨hran₂, hwords₂, hr⟩ := generateJz_ran hcond.ran.ready
  obtain ⟨v, harg⟩ := exists_arg_of_jz hcond hbody.1
  have hindex : (pushLoop c).1 = c.loopScopes.length := rfl
  rw [hr, hindex]
  have hlen₂ : (generateJz c₁).2.words.length = c₁.words.length + 2 := by
    rw [hwords₂, List.length_append]
    rfl
  have hle : c.words.length ≤ c₁.words.length := hcond.length_le
  have hle₃ := hbody.1.words.length_le
  -- the loop behind the body has the breaks of the body
  have hloops₂ : (generateJz c₁).2.loopScopes =
      c.loopScopes ++ [⟨c.piece.getPc, c.currentFrameOffset, []⟩] := hcond.loops
  obtain ⟨rs, hloops₃, hrs⟩ := hbody.1.loops.concat hloops₂
  rw [List.nil_append] at hloops₃
  have hargs : ∀ r ∈ rs, ∃ v, c₃.words[r]? = some (.arg v) := fun r hr => (hrs r hr).2
  obtain ⟨hran₄, hloops₄, hlen₄⟩ := closeLoop_ran hbody.1.ready hloops₃ harg hargs
  have hran' := hcond.ran.trans (hran₂.trans (hbody.1.trans hran₄))
  have hran : Ran c (closeLoop c.loopScopes.length (c₁.words.length + 1) c₃).2 := by
    refine ⟨⟨hran'.ready.coded, hran'.ready.prim, hran'.ready.results, fun r hr => ?_⟩,
      hran'.words, .inl hloops₄, hran'.blocks⟩
    exact Nat.lt_of_lt_of_le (h.breaks r (hloops₄ ▸ hr)) hran'.words.length_le
  refine ⟨hran, fun cells blocks pending breakPc hfin hpending => ?_⟩
  have hnot : ∀ x, c.words.length ≤ x → x < c₃.words.length + 2 → x ∉ pending := by
    intro x hlow hhigh
    refine hpending.not_mem hlow (by rw [hlen₄]; exact hhigh) fun hmem => ?_
    exact absurd (h.breaks x (hloops₄ ▸ hmem)) (by omega)
  have hr : c₁.words.length + 1 ∉ rs := fun hmem => absurd (hrs _ hmem).1 (by omega)
  obtain ⟨hvalue, hjump, hfin₃⟩ := closeLoop_back hbody.1.ready hloops₃ harg hargs hfin hr (by
    rintro x (rfl | hx | rfl)
    · exact hnot _ (by omega) (by omega)
    · have hlow := (hrs x hx).1
      have hhigh := (List.getElem?_eq_some_iff.mp (hargs x hx).choose_spec).1
      exact hnot _ (by omega) (by omega)
    · exact hnot _ (by omega) (by omega))
  have hpending₃ : PendingIn (generateJz c₁).2 c₃
      (insert (c₁.words.length + 1) (pending ∪ {r | r ∈ rs})) := by
    refine PendingIn.insert ?_ (by omega)
    rintro x (hx | hx)
    · by_contra hno
      push Not at hno
      exact hnot x (by omega) (by omega) hx
    · refine .inr (.inr ?_)
      rw [hloops₃, innerBreaks_concat]
      exact hx
  obtain ⟨hfin₂, hlaid⟩ := hbody.2 _ _ _ _ hfin₃ hpending₃
  obtain ⟨hfin₁, l, hseg, hbranch⟩ := branch_back hcond hfin₂ (m := c₃.words.length + 2) (by
    rw [hvalue])
  rw [hloops₂, loopTargets_concat, ← c.length_words] at hlaid
  rw [← c.length_words] at hjump
  refine ⟨hfin.back hran (hfin₁.agrees.restrict ?_), fun rest t hrest => ?_⟩
  · rintro x (rfl | hx | hx) hlt
    · have hlt' : c₁.words.length + 1 < c.words.length := hlt
      omega
    · exact hx
    · have hlt' : x < c.words.length := hlt
      have hlow := (hrs x hx).1
      omega
  · rw [hlen₄] at hrest
    exact ⟨l, _, _, _, _, hseg, hbranch, hlaid, hjump, hrest⟩

end Statements

end TinCompiler
