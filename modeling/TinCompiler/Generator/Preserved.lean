import TinCompiler.Generator.CodeGraph
import TinCompiler.Generator.Quiet
import TinCompiler.Generator.Storage

/-!
# The code keeps the control flow of the body

`ASTBody.structured` is the body as a structured program: its expression statements,
declarations, conditions and returned values with the control flow between them.
`generateBody_places` says that the code of the body lies as this program does, if every call of
`generateBody` returned true; the argument follows that of `generateBody_laid`, which is used for
what the finished piece says of the code so far.  So the machine executes what the program
prescribes (`AcceptedFunction.control_preserved`).
-/

namespace TinCompiler

open GeneratorM

/-! ## The program of a body -/

mutual

/-- What the body prescribes. -/
def ASTBody.structured : ASTBody → Structured BlockKind
  | .mk _ statements => structuredOfStatements statements

def structuredOfStatements : List ASTStatement → Structured BlockKind
  | [] => .done
  | statement :: rest => structuredOfStatement statement (structuredOfStatements rest)

/-- A statement and what is behind it; the declarations of constants and globals do nothing. -/
def structuredOfStatement : ASTStatement → Structured BlockKind → Structured BlockKind
  | .expression e location, rest => .plain (.statement (.expression e location)) rest
  | .varDeclaration type name e location, rest =>
      .plain (.statement (.varDeclaration type name e location)) rest
  | .globalDeclaration _ _ _ _, rest => rest
  | .constDeclaration _ _ _ _, rest => rest
  | .while condition body _, rest => .loop (.condition condition) body.structured rest
  | .ifElse condition body none _, rest => .ifThen (.condition condition) body.structured rest
  | .ifElse condition body (some elseBody) _, rest =>
      .ifElse (.condition condition) body.structured elseBody.structured rest
  | .break _, _ => .breaks
  | .continue _, _ => .continues
  | .return none _, _ => .returns none
  | .return (some e) location, _ => .returns (some (.result (.return (some e) location)))

end

mutual

/-- Every call of `generateBody` for the body and those in it returns true. -/
def ReturnsTrue : ASTBody → GeneratorContext → Prop
  | .mk scopeId statements, c => (generateBody (.mk scopeId statements) c).1 = true ∧
      AllReturnTrue c.currentFrameOffset statements (setScope scopeId c).2

def AllReturnTrue (prevFrameOffset : ℤ) : List ASTStatement → GeneratorContext → Prop
  | [], _ => True
  | statement :: rest, c =>
      let run := generateStatement prevFrameOffset statement (recordStart c).2
      NestedReturnTrue statement (recordStart c).2 ∧
        (run.1 = .next → AllReturnTrue prevFrameOffset rest run.2)

def NestedReturnTrue : ASTStatement → GeneratorContext → Prop
  | .while condition body _, c =>
      ReturnsTrue body (branchContext condition "while" (pushLoop c).2)
  | .ifElse condition body none _, c => ReturnsTrue body (branchContext condition "if" c)
  | .ifElse condition body (some elseBody) _, c =>
      ReturnsTrue body (branchContext condition "if" c) ∧
        ReturnsTrue elseBody (elseContext condition body c)
  | .expression _ _, _ => True
  | .varDeclaration _ _ _ _, _ => True
  | .globalDeclaration _ _ _ _, _ => True
  | .constDeclaration _ _ _ _, _ => True
  | .break _, _ => True
  | .continue _, _ => True
  | .return _ _, _ => True

end

/-! ## Where the code lies -/

/-- The code of the program with these labels lies between the positions, each label at a
recorded block of its kind. -/
def LiesAs (cells : List Cell) (blocks : List Block) (loop : Option (ℕ × ℕ))
    (program : Structured BlockKind) (s t : ℕ) : Prop :=
  ∃ labelled : Structured {b : Block // b ∈ blocks},
    labelled.map (fun b => b.1.kind) = program ∧ (blockGraph cells blocks).Lies loop labelled s t

/-- From `c` to `c'` the code of a program was emitted. -/
def PlacesBlock (c c' : GeneratorContext) (program : Structured BlockKind) : Prop :=
  Below c → Below c' ∧
    ∀ (cells : List Cell) (blocks : List Block) (pending : Set ℕ) (breakPc : ℕ),
      Finishes cells blocks pending breakPc c' → PendingIn c c' pending →
        LiesAs cells blocks (loopTargets breakPc c.loopScopes) program c.words.length
          c'.words.length

/-- From `c` to `c'` the code of a statement was emitted; `program` puts it in front of the
rest. -/
def Places (c c' : GeneratorContext) (program : Structured BlockKind → Structured BlockKind) :
    Prop :=
  Below c → Below c' ∧
    ∀ (cells : List Cell) (blocks : List Block) (pending : Set ℕ) (breakPc : ℕ),
      Finishes cells blocks pending breakPc c' → PendingIn c c' pending →
        ∀ (rest : Structured BlockKind) (t : ℕ),
          LiesAs cells blocks (loopTargets breakPc c.loopScopes) rest c'.words.length t →
          LiesAs cells blocks (loopTargets breakPc c.loopScopes) (program rest) c.words.length t

/-- Straight code was emitted and recorded as a block. -/
structure Recorded (kind : BlockKind) (c c' : GeneratorContext) : Prop where
  straightly : Straightly c c'
  blocks : c'.blocks = c.blocks ++ [⟨c.words.length, c'.words.length, kind⟩]

section Statements

variable {c c₁ c₂ c₃ c₄ c₅ c₆ : GeneratorContext} {kind : BlockKind}

theorem Recorded.withBlock {x : GeneratorM StatementResult}
    (hkind : ∀ statement, kind ≠ .result statement) (h : Straightly c (x c).2)
    (hsame : (x c).2.blocks = c.blocks) : Recorded kind c (withBlock kind x c).2 := by
  refine ⟨lays_withBlock hkind h, ?_⟩
  rw [c.length_words, GeneratorContext.length_words]
  show (x c).2.blocks ++ _ = _
  rw [hsame]
  rfl

theorem Recorded.below (h : Recorded kind c c₁) (hbelow : Below c) : Below c₁ := by
  intro b hb
  rw [h.blocks] at hb
  rcases List.mem_append.mp hb with hb | hb
  · exact Nat.le_trans (hbelow b hb) h.straightly.length_le
  · obtain rfl := List.mem_singleton.mp hb
    exact Nat.le_refl _

section Finished

variable {cells : List Cell} {blocks : List Block} {pending : Set ℕ} {breakPc : ℕ}

/-- The recorded code is the code of a label. -/
theorem Recorded.code (h : Recorded kind c c₁) (hfin : Finishes cells blocks pending breakPc c₁) :
    ∃ b : {b : Block // b ∈ blocks}, b.1.kind = kind ∧
      (blockGraph cells blocks).Straight c.words.length ((blockGraph cells blocks).code b)
        c₁.words.length := by
  have hmem : ⟨c.words.length, c₁.words.length, kind⟩ ∈ blocks := by
    obtain ⟨later, rfl, -⟩ := hfin.blocks
    rw [h.blocks]
    exact List.mem_append_left _ (List.mem_append_right _ List.mem_cons_self)
  exact ⟨⟨_, hmem⟩, rfl, h.straightly.walk blocks hfin.agrees⟩

/-- The `jz` behind a condition. -/
theorem branch_of_jz {m : ℕ} (hcond : Straightly c c₁) (hbelow : Below c₁)
    (hfin : Finishes cells blocks pending breakPc (generateJz c₁).2)
    (harg : (cells.map Cell.word)[c₁.words.length + 1]? =
      some (.arg (m - (c₁.words.length + 1 : ℕ)))) :
    Finishes cells blocks pending breakPc c₁ ∧
      (blockGraph cells blocks).Branch c₁.words.length (generateJz c₁).2.words.length m := by
  obtain ⟨hran, hwords, -⟩ := generateJz_ran hcond.ran.ready
  have hlen : (generateJz c₁).2.words.length = c₁.words.length + 2 := by
    rw [hwords, List.length_append]
    rfl
  obtain ⟨-, l, -, hbranches⟩ := branch_back hcond hfin harg
  have hbranch : (generateJz c₁).2.words[c₁.words.length]? = some .branch :=
    hwords ▸ getElem?_first c₁.words _ _
  refine ⟨hfin.back hran (hfin.agrees.of_append ⟨_, hwords.symm⟩), ?_, ?_⟩
  · rw [hlen] at hbranches ⊢
    exact flow_of_branches (hfin.agrees.not_arg hbranch (by simp)) hbranches
  · exact hfin.hidden hbelow (by omega)

/-- The `jmp` at the end of a body. -/
theorem jump_of_jmp {m : ℕ} (h : Ready c₁) (hbelow : Below c₁)
    (hfin : Finishes cells blocks pending breakPc (generateJmp c₁).2)
    (harg : (cells.map Cell.word)[c₁.words.length + 1]? =
      some (.arg (m - (c₁.words.length + 1 : ℕ)))) :
    (blockGraph cells blocks).Jump c₁.words.length m := by
  obtain ⟨-, hwords, -⟩ := generateJmp_ran h
  obtain ⟨-, hjumps⟩ := jump_back h hfin harg
  have hjump : (generateJmp c₁).2.words[c₁.words.length]? = some .jump :=
    hwords ▸ getElem?_first c₁.words _ _
  refine ⟨flow_of_jumps (hfin.agrees.not_arg hjump (by simp)) hjumps, hfin.hidden hbelow ?_⟩
  rw [hwords, List.length_append]
  exact Nat.lt_add_of_pos_right (by decide)

end Finished

theorem PlacesBlock.done (c : GeneratorContext) : PlacesBlock c c .done :=
  fun hbelow => ⟨hbelow, fun _ _ _ _ _ _ => ⟨.done, rfl, .refl _⟩⟩

/-- A statement and the statements behind it. -/
theorem Places.append {program : Structured BlockKind → Structured BlockKind}
    {rest : Structured BlockKind} {control : Control} (h : Places c c₁ program) (hran : Ran c c₁)
    (hlays : LaysBlock c₁ c₂ control) (hrest : PlacesBlock c₁ c₂ rest) :
    PlacesBlock c c₂ (program rest) := by
  intro hbelow
  obtain ⟨hbelow₁, hplaces⟩ := h hbelow
  obtain ⟨hbelow₂, hplaces₂⟩ := hrest hbelow₁
  refine ⟨hbelow₂, fun cells blocks pending breakPc hfin hpending => ?_⟩
  have hpending₁ := hpending.right hran.words.length_le
  obtain ⟨hfin₁, -⟩ := hlays.2 cells blocks pending breakPc hfin hpending₁
  have hlies := hplaces₂ cells blocks pending breakPc hfin hpending₁
  rw [hran.loops.loopTargets] at hlies
  exact hplaces cells blocks pending breakPc hfin₁ (hpending.left hlays.1) rest _ hlies

/-- A statement behind which nothing was generated. -/
theorem Places.last {program : Structured BlockKind → Structured BlockKind}
    (h : Places c c₁ program) (hran : Ran c c₁) : PlacesBlock c c₁ (program .done) :=
  h.append hran (.done hran.ready) (.done c₁)

theorem Recorded.places (h : Recorded kind c c₁) : Places c c₁ (.plain kind) := by
  intro hbelow
  refine ⟨h.below hbelow, fun cells blocks pending breakPc hfin _ rest t hrest => ?_⟩
  obtain ⟨b, hkind, hcode⟩ := h.code hfin
  obtain ⟨labelled, rfl, hlies⟩ := hrest
  exact ⟨.plain b labelled, by rw [Structured.map, hkind], _, hcode, hlies⟩

/-- A statement without code. -/
theorem Places.of_same (hwords : c₁.words = c.words) (hblocks : c₁.blocks = c.blocks) :
    Places c c₁ id := by
  intro hbelow
  refine ⟨hbelow.of_same (Nat.le_of_eq (by rw [hwords])) hblocks,
    fun cells blocks pending breakPc _ _ rest t hrest => ?_⟩
  rwa [hwords] at hrest

/-! ### The statements with bodies -/

variable {control control' : Control} {program program' : Structured BlockKind}

theorem places_ifThen (hcond : Recorded kind c c₁)
    (hlays : LaysBlock (generateJz c₁).2 c₃ control)
    (hbody : PlacesBlock (generateJz c₁).2 c₃ program) :
    Places c (fixJump (generateJz c₁).1 c₃).2 (.ifThen kind program) := by
  obtain ⟨hran₂, hwords₂, hr⟩ := generateJz_ran hcond.straightly.ran.ready
  obtain ⟨v, harg⟩ := exists_arg_of_jz hcond.straightly hlays.1
  rw [hr]
  have hlen₂ : (generateJz c₁).2.words.length = c₁.words.length + 2 := by
    rw [hwords₂, List.length_append]
    rfl
  have hlen₄ := length_fixJump (c₁.words.length + 1) c₃
  have hran₄ : Ran c₃ (fixJump (c₁.words.length + 1) c₃).2 := hlays.1.ready.fixJumpHere harg
  have hle := hcond.straightly.length_le
  have hle₃ := hlays.1.words.length_le
  intro hbelow
  have hbelow₁ := hcond.below hbelow
  obtain ⟨hbelow₃, hplaces⟩ := hbody (hbelow₁.of_same hran₂.words.length_le rfl)
  refine ⟨hbelow₃.of_same (Nat.le_of_eq hlen₄.symm) rfl,
    fun cells blocks pending breakPc hfin hpending rest t hrest => ?_⟩
  have hnot : c₁.words.length + 1 ∉ pending := by
    refine hpending.not_mem (by omega) (by omega) fun hmem => ?_
    rcases hlays.1.loops.innerBreaks_cases hmem with hmem | hge
    · exact absurd (hcond.straightly.ran.ready.breaks _ hmem) (by omega)
    · omega
  obtain ⟨hvalue, hfin₃⟩ := fixJump_back hlays.1.ready harg hfin hnot
  have hpending₃ := ((hpending.left hran₄).right (by omega)).insert
    (show c₁.words.length + 1 < (generateJz c₁).2.words.length by omega)
  obtain ⟨hfin₂, -⟩ := hlays.2 _ _ _ _ hfin₃ hpending₃
  obtain ⟨hfin₁, hbranch⟩ := branch_of_jz hcond.straightly hbelow₁ hfin₂ hvalue
  obtain ⟨b, rfl, hcode⟩ := hcond.code hfin₁
  obtain ⟨body, rfl, hlies⟩ := hplaces _ _ _ _ hfin₃ hpending₃
  obtain ⟨labelled, rfl, hrest⟩ := hrest
  have hloops : (generateJz c₁).2.loopScopes = c.loopScopes := hcond.straightly.loops
  rw [hloops] at hlies
  rw [hlen₄] at hrest
  exact ⟨.ifThen b body labelled, rfl, _, _, _, hcode, hbranch, hlies, hrest⟩

theorem places_ifElse (hcond : Recorded kind c c₁)
    (hlays : LaysBlock (generateJz c₁).2 c₃ control)
    (hbody : PlacesBlock (generateJz c₁).2 c₃ program)
    (hlays' : LaysBlock (fixJump (generateJz c₁).1 (generateJmp c₃).2).2 c₆ control')
    (hbody' : PlacesBlock (fixJump (generateJz c₁).1 (generateJmp c₃).2).2 c₆ program') :
    Places c (fixJump (generateJmp c₃).1 c₆).2 (.ifElse kind program program') := by
  obtain ⟨hran₂, hwords₂, hr⟩ := generateJz_ran hcond.straightly.ran.ready
  obtain ⟨hran₄, hwords₄, hr'⟩ := generateJmp_ran hlays.1.ready
  rw [hr] at hlays' hbody'
  rw [hr']
  obtain ⟨v, harg⟩ := exists_arg_of_jz hcond.straightly (hlays.1.trans hran₄)
  have hran₅ : Ran (generateJmp c₃).2 (fixJump (c₁.words.length + 1) (generateJmp c₃).2).2 :=
    hran₄.ready.fixJumpHere harg
  obtain ⟨v', harg'⟩ := exists_arg_of_jmp hlays.1.ready (hran₅.trans hlays'.1)
  have hran₇ : Ran c₆ (fixJump (c₃.words.length + 1) c₆).2 := hlays'.1.ready.fixJumpHere harg'
  have hlen₂ : (generateJz c₁).2.words.length = c₁.words.length + 2 := by
    rw [hwords₂, List.length_append]
    rfl
  have hlen₄ : (generateJmp c₃).2.words.length = c₃.words.length + 2 := by
    rw [hwords₄, List.length_append]
    rfl
  have hlen₅ := length_fixJump (c₁.words.length + 1) (generateJmp c₃).2
  have hlen₇ := length_fixJump (c₃.words.length + 1) c₆
  have hran₃₇ := hran₄.trans (hran₅.trans (hlays'.1.trans hran₇))
  have hle := hcond.straightly.length_le
  have hle₃ := hlays.1.words.length_le
  have hle₆ := hlays'.1.words.length_le
  intro hbelow
  have hbelow₁ := hcond.below hbelow
  obtain ⟨hbelow₃, hplaces⟩ := hbody (hbelow₁.of_same hran₂.words.length_le rfl)
  obtain ⟨hbelow₆, hplaces'⟩ := hbody' (hbelow₃.of_same (by omega) rfl)
  refine ⟨hbelow₆.of_same (Nat.le_of_eq hlen₇.symm) rfl,
    fun cells blocks pending breakPc hfin hpending rest t hrest => ?_⟩
  have hnot' : c₃.words.length + 1 ∉ pending := by
    refine hpending.not_mem (by omega) (by omega) fun hmem => ?_
    rcases hlays'.1.loops.innerBreaks_cases hmem with hmem | hge
    · exact absurd (hlays.1.ready.breaks _ hmem) (by omega)
    · omega
  have hnot : c₁.words.length + 1 ∉ insert (c₃.words.length + 1) pending := by
    rintro (heq | hmem)
    · omega
    refine hpending.not_mem (by omega) (by omega) (fun hmem => ?_) hmem
    rcases hlays'.1.loops.innerBreaks_cases hmem with hmem | hge
    · rcases hlays.1.loops.innerBreaks_cases hmem with hmem | hge
      · exact absurd (hcond.straightly.ran.ready.breaks _ hmem) (by omega)
      · omega
    · omega
  -- backwards through the code, as for the layout
  obtain ⟨hvalue', hfin₆⟩ := fixJump_back hlays'.1.ready harg' hfin hnot'
  have hpending₆ := ((hpending.left hran₇).right (by omega)).insert
    (show c₃.words.length + 1 <
      (fixJump (c₁.words.length + 1) (generateJmp c₃).2).2.words.length by omega)
  obtain ⟨hfin₅, -⟩ := hlays'.2 _ _ _ _ hfin₆ hpending₆
  obtain ⟨hvalue, hfin₄⟩ := fixJump_back hran₄.ready harg hfin₅ hnot
  obtain ⟨hfin₃, -⟩ := jump_back hlays.1.ready hfin₄ hvalue'
  have hjump := jump_of_jmp hlays.1.ready hbelow₃ hfin₄ hvalue'
  have hpending₃ : PendingIn (generateJz c₁).2 c₃ (insert (c₁.words.length + 1)
      (insert (c₃.words.length + 1) pending)) := by
    refine PendingIn.insert ?_ (by omega)
    rintro r (rfl | hr)
    · exact .inr (.inl (Nat.le_succ _))
    · exact (hpending.left hran₃₇).right (by omega) r hr
  obtain ⟨hfin₂, -⟩ := hlays.2 _ _ _ _ hfin₃ hpending₃
  obtain ⟨hfin₁, hbranch⟩ := branch_of_jz hcond.straightly hbelow₁ hfin₂ hvalue
  obtain ⟨b, rfl, hcode⟩ := hcond.code hfin₁
  obtain ⟨body, rfl, hlies⟩ := hplaces _ _ _ _ hfin₃ hpending₃
  obtain ⟨other, rfl, hlies'⟩ := hplaces' _ _ _ _ hfin₆ hpending₆
  obtain ⟨labelled, rfl, hrest⟩ := hrest
  have hloops : (generateJz c₁).2.loopScopes = c.loopScopes := hcond.straightly.loops
  have hloops' :
      loopTargets breakPc (fixJump (c₁.words.length + 1) (generateJmp c₃).2).2.loopScopes =
        loopTargets breakPc c.loopScopes :=
    (hlays.1.loops.loopTargets breakPc).trans (by rw [hloops])
  rw [hloops] at hlies
  rw [hloops', hlen₅] at hlies'
  rw [hlen₇] at hrest
  exact ⟨.ifElse b body other labelled, rfl, _, _, _, _, _, hcode, hbranch, hlies, hjump, hlies',
    hrest⟩

/-! ### Loops -/

section CloseLoop

variable {init : List LoopScope} {k r : ℕ} {frame v : ℤ} {rs : List ℕ}

/-- At the end of a loop there is a jump. -/
theorem jump_of_closeLoop (h : Ready c) (hloops : c.loopScopes = init ++ [⟨k, frame, rs⟩])
    (harg : c.words[r]? = some (.arg v)) (hargs : ∀ r ∈ rs, ∃ v, c.words[r]? = some (.arg v)) :
    (closeLoop init.length r c).2.words[c.words.length]? = some .jump := by
  rw [closeLoop_eq_of_concat hloops]
  obtain ⟨hran₁, hwords₁⟩ := emitJmp_ran h k
  obtain ⟨v', harg'⟩ := hran₁.words.arg harg
  have hran₂ : Ran _ (fixJump r (c.withPiece (c.piece.emitJmp k))).2 :=
    hran₁.ready.fixJumpHere harg'
  have hran₃ := fixBreaks_ran rs hran₂.ready fun r hr =>
    (hran₁.trans hran₂).words.arg (hargs r hr).choose_spec
  have hjump : (c.withPiece (c.piece.emitJmp k)).words[c.words.length]? = some .jump :=
    hwords₁ ▸ getElem?_first c.words _ _
  rcases (hran₂.trans hran₃).words _ _ hjump with hsame | ⟨_, _, heq, -⟩
  · exact hsame
  · cases heq

theorem blocks_closeLoop (hloops : c.loopScopes = init ++ [⟨k, frame, rs⟩]) (r : ℕ) :
    (closeLoop init.length r c).2.blocks = c.blocks := by
  rw [closeLoop_eq_of_concat hloops]
  rfl

end CloseLoop

theorem places_while (h : Ready c) (hcond : Recorded kind (pushLoop c).2 c₁)
    (hlays : LaysBlock (generateJz c₁).2 c₃ control)
    (hbody : PlacesBlock (generateJz c₁).2 c₃ program) :
    Places c (closeLoop (pushLoop c).1 (generateJz c₁).1 c₃).2 (.loop kind program) := by
  obtain ⟨hran₂, hwords₂, hr⟩ := generateJz_ran hcond.straightly.ran.ready
  obtain ⟨v, harg⟩ := exists_arg_of_jz hcond.straightly hlays.1
  have hindex : (pushLoop c).1 = c.loopScopes.length := rfl
  rw [hr, hindex]
  have hlen₂ : (generateJz c₁).2.words.length = c₁.words.length + 2 := by
    rw [hwords₂, List.length_append]
    rfl
  have hle : c.words.length ≤ c₁.words.length := hcond.straightly.length_le
  have hle₃ := hlays.1.words.length_le
  have hloops₂ : (generateJz c₁).2.loopScopes =
      c.loopScopes ++ [⟨c.piece.getPc, c.currentFrameOffset, []⟩] := hcond.straightly.loops
  obtain ⟨rs, hloops₃, hrs⟩ := hlays.1.loops.concat hloops₂
  rw [List.nil_append] at hloops₃
  have hargs : ∀ r ∈ rs, ∃ v, c₃.words[r]? = some (.arg v) := fun r hr => (hrs r hr).2
  obtain ⟨-, hloops₄, hlen₄⟩ := closeLoop_ran hlays.1.ready hloops₃ harg hargs
  have hjumpWord := jump_of_closeLoop hlays.1.ready hloops₃ harg hargs
  have hblocks₄ := blocks_closeLoop hloops₃ (c₁.words.length + 1)
  intro hbelow
  have hbelow₁ : Below c₁ := hcond.below hbelow
  obtain ⟨hbelow₃, hplaces⟩ := hbody (hbelow₁.of_same hran₂.words.length_le rfl)
  refine ⟨hbelow₃.of_same (by omega) hblocks₄,
    fun cells blocks pending breakPc hfin hpending rest t hrest => ?_⟩
  have hnot : ∀ x, c.words.length ≤ x → x < c₃.words.length + 2 → x ∉ pending := by
    intro x hlow hhigh
    refine hpending.not_mem hlow (by rw [hlen₄]; exact hhigh) fun hmem => ?_
    exact absurd (h.breaks x (hloops₄ ▸ hmem)) (by omega)
  have hr : c₁.words.length + 1 ∉ rs := fun hmem => absurd (hrs _ hmem).1 (by omega)
  obtain ⟨hvalue, hjumps, hfin₃⟩ := closeLoop_back hlays.1.ready hloops₃ harg hargs hfin hr (by
    rintro x (rfl | hx | rfl)
    · exact hnot _ (by omega) (by omega)
    · have hlow := (hrs x hx).1
      have hhigh := (List.getElem?_eq_some_iff.mp (hargs x hx).choose_spec).1
      exact hnot _ (by omega) (by omega)
    · exact hnot _ (by omega) (by omega))
  have hpending₃ : PendingIn (generateJz c₁).2 c₃
      (insert (c₁.words.length + 1) (pending ∪ {r | r ∈ rs})) := by
    refine PendingIn.insert ?_ (by omega)
    rintro x (hx | hx)
    · by_contra hno
      push Not at hno
      exact hnot x (by omega) (by omega) hx
    · refine .inr (.inr ?_)
      rw [hloops₃, innerBreaks_concat]
      exact hx
  obtain ⟨hfin₂, -⟩ := hlays.2 _ _ _ _ hfin₃ hpending₃
  obtain ⟨hfin₁, hbranch⟩ := branch_of_jz hcond.straightly hbelow₁ hfin₂
    (show _ = some (Word.arg ((c₃.words.length + 2 : ℕ) - (c₁.words.length + 1 : ℕ))) from hvalue)
  have hjump : (blockGraph cells blocks).Jump c₃.words.length c.words.length := by
    rw [← c.length_words] at hjumps
    refine ⟨flow_of_jumps (hfin.agrees.not_arg hjumpWord (by simp)) hjumps,
      hfin.hidden (fun b hb => hbelow₃ b (hblocks₄ ▸ hb)) (by omega)⟩
  obtain ⟨b, rfl, hcode⟩ := hcond.code hfin₁
  obtain ⟨body, rfl, hlies⟩ := hplaces _ _ _ _ hfin₃ hpending₃
  obtain ⟨labelled, rfl, hrest⟩ := hrest
  rw [hloops₂, loopTargets_concat, ← c.length_words] at hlies
  rw [hlen₄] at hrest
  exact ⟨.loop b body labelled, rfl, _, _, _, _, hcode, hbranch, hlies, hjump, hrest⟩

/-! ### Leaving a block -/

theorem blocks_releaseTo (frame : ℤ) (c : GeneratorContext) :
    (releaseTo frame c).2.blocks = c.blocks := (DeclaresAt.framed_releaseTo frame c).blocks

/-- The frame offset of the generator is no code. -/
theorem Places.setFrameOffset {program : Structured BlockKind → Structured BlockKind}
    (h : Places c c₁ program) (hready : Ready c₁) (frame : ℤ) :
    Places c (setFrameOffset frame c₁).2 program := by
  intro hbelow
  obtain ⟨hbelow₁, hplaces⟩ := h hbelow
  have hsame := straight_setFrameOffset frame hready
  exact ⟨hbelow₁, fun cells blocks pending breakPc hfin hpending =>
    hplaces cells blocks pending breakPc (hsame.back hfin) hpending⟩

theorem places_continues {loop : LoopScope} (hlast : c.loopScopes.getLast? = some loop)
    (hready : Ready c) (hstraight : Straightly c c₁) (hsame : c₁.blocks = c.blocks) :
    Places c (c₁.withPiece (c₁.piece.emitJmp loop.continuePc)) fun _ => .continues := by
  obtain ⟨hran, hwords⟩ := emitJmp_ran hstraight.ran.ready loop.continuePc
  have hblocks : (c₁.withPiece (c₁.piece.emitJmp loop.continuePc)).blocks = c.blocks := hsame
  have hloops : (c₁.withPiece (c₁.piece.emitJmp loop.continuePc)).loopScopes = c.loopScopes :=
    hstraight.loops
  generalize c₁.withPiece (c₁.piece.emitJmp loop.continuePc) = c₂ at hran hwords hblocks hloops ⊢
  have hlen : c₂.words.length = c₁.words.length + 2 := by
    rw [hwords, List.length_append]
    rfl
  have hle := hstraight.length_le
  intro hbelow
  refine ⟨hbelow.of_same (by omega) hblocks,
    fun cells blocks pending breakPc hfin hpending rest t _ => ?_⟩
  have hfin₁ : Finishes cells blocks pending breakPc c₁ :=
    hfin.back hran (hfin.agrees.of_append ⟨_, hwords.symm⟩)
  have hglue := hstraight.glue hfin₁ fun b hb => hbelow b (hsame ▸ hb)
  have hnot : c₁.words.length + 1 ∉ pending := by
    refine hpending.not_mem (by omega) (by omega) fun hmem => ?_
    exact absurd (hready.breaks _ (hloops ▸ hmem)) (by omega)
  have hjump := hfin.agrees.not_arg (hwords ▸ getElem?_first c₁.words .jump _) (by simp)
  have htarget := hfin.agrees.exact (hwords ▸ getElem?_second _ _ _) hnot
  have hflow : flowOf cells c₁.words.length = .go loop.continuePc := by
    refine flow_of_jump hjump htarget ?_
    push_cast
    omega
  have hhidden := hfin.hidden
    (fun b hb => Nat.le_trans (hbelow b (hblocks ▸ hb)) hle) (by omega)
  exact ⟨.continues, rfl, _, _, _, loopTargets_of_getLast hlast breakPc, hglue, hflow, hhidden⟩

theorem places_continue (prevFrameOffset : ℤ) (location : SourceLocation) (h : Ready c)
    (herrors : (generateContinue prevFrameOffset location c).2.reporter.errors = 0) :
    Places c (generateContinue prevFrameOffset location c).2 fun _ => .continues := by
  have hready := (lays_continue prevFrameOffset location h herrors).1.ready
  unfold generateContinue at herrors hready ⊢
  rw [getContext_bind_apply] at herrors hready ⊢
  cases hlast : c.loopScopes.getLast? with
  | none =>
      rw [hlast] at herrors
      exact absurd ((errors_failStatement _ _ _).symm.trans herrors) (Nat.succ_ne_zero _)
  | some loop =>
      rw [hlast] at hready
      have hstraight := straight_releaseTo loop.frameOffset h
      have hsame := blocks_releaseTo loop.frameOffset c
      have hran := (lays_continues hlast h hstraight).1
      exact (places_continues hlast h hstraight hsame).setFrameOffset hran.ready prevFrameOffset

theorem places_breaks {loop : LoopScope} (hlast : c.loopScopes.getLast? = some loop)
    (hstraight : Straightly c c₁) (hsame : c₁.blocks = c.blocks) :
    Places c (emitBreak loop c₁) fun _ => .breaks := by
  have hlast₁ : c₁.loopScopes.getLast? = some loop := hstraight.loops ▸ hlast
  obtain ⟨hran, hwords, hbreak⟩ := emitBreak_ran hlast₁ hstraight.ran.ready
  have hblocks : (emitBreak loop c₁).blocks = c.blocks := hsame
  have hlen : (emitBreak loop c₁).words.length = c₁.words.length + 2 := by
    rw [hwords, List.length_append]
    rfl
  have hle := hstraight.length_le
  intro hbelow
  refine ⟨hbelow.of_same (by omega) hblocks,
    fun cells blocks pending breakPc hfin _ rest t _ => ?_⟩
  have hfin₁ : Finishes cells blocks pending breakPc c₁ :=
    hfin.back hran (hfin.agrees.of_append ⟨_, hwords.symm⟩)
  have hglue := hstraight.glue hfin₁ fun b hb => hbelow b (hsame ▸ hb)
  have hjump := hfin.agrees.not_arg (hwords ▸ getElem?_first c₁.words .jump _) (by simp)
  have hflow : flowOf cells c₁.words.length = .go breakPc := by
    refine flow_of_jump hjump (hfin.breaks _ hbreak) ?_
    push_cast
    omega
  have hhidden := hfin.hidden
    (fun b hb => Nat.le_trans (hbelow b (hblocks ▸ hb)) hle) (by omega)
  exact ⟨.breaks, rfl, _, _, _, loopTargets_of_getLast hlast breakPc, hglue, hflow, hhidden⟩

theorem places_break (prevFrameOffset : ℤ) (location : SourceLocation) (h : Ready c)
    (herrors : (generateBreak prevFrameOffset location c).2.reporter.errors = 0) :
    Places c (generateBreak prevFrameOffset location c).2 fun _ => .breaks := by
  unfold generateBreak at herrors ⊢
  rw [getContext_bind_apply] at herrors ⊢
  cases hlast : c.loopScopes.getLast? with
  | none =>
      rw [hlast] at herrors
      exact absurd ((errors_failStatement _ _ _).symm.trans herrors) (Nat.succ_ne_zero _)
  | some loop =>
      have hstraight := straight_releaseTo loop.frameOffset h
      have hsame := blocks_releaseTo loop.frameOffset c
      have hran := (lays_breaks hlast hstraight).1
      exact (places_breaks hlast hstraight hsame).setFrameOffset hran.ready prevFrameOffset

/-- Straight code and a `ret`, both out of sight. -/
theorem leaves_of_ret {cells : List Cell} {blocks : List Block} {pending : Set ℕ} {breakPc : ℕ}
    (hstraight : Straightly c c₁) (hlow : ∀ b ∈ c₁.blocks, b.stop ≤ c.words.length)
    (hfin : Finishes cells blocks pending breakPc (c₁.withPiece c₁.piece.emitRet)) :
    (blockGraph cells blocks).Leaves c.words.length := by
  obtain ⟨hran, hwords⟩ := emitRet_ran hstraight.ran.ready
  have hfin₁ : Finishes cells blocks pending breakPc c₁ :=
    hfin.back hran (hfin.agrees.of_append ⟨_, hwords.symm⟩)
  have hret : (c₁.withPiece c₁.piece.emitRet).words[c₁.words.length]? = some .ret := by
    rw [hwords]
    exact List.getElem?_concat_length
  exact ⟨_, hstraight.glue hfin₁ hlow, flow_of_ret (hfin.agrees.not_arg hret (by simp))⟩

theorem places_returns (hstraight : Straightly c c₁) (hsame : c₁.blocks = c.blocks) :
    Places c (c₁.withPiece c₁.piece.emitRet) fun _ => .returns none := by
  obtain ⟨hran, -⟩ := emitRet_ran hstraight.ran.ready
  intro hbelow
  refine ⟨hbelow.of_same (hstraight.ran.trans hran).words.length_le hsame,
    fun cells blocks pending breakPc hfin _ rest t _ => ?_⟩
  exact ⟨.returns none, rfl, leaves_of_ret hstraight (fun b hb => hbelow b (hsame ▸ hb)) hfin⟩

/-- A `return` with a value: between the code of the value and the `ret` there is nothing to
see. -/
theorem places_returns_value (statement : ASTStatement) (hresult : Straightly c c₁)
    (hsame : c₁.blocks = c.blocks) (hstraight : Straightly c₁ c₂) (hsame' : c₂.blocks = c₁.blocks) :
    Places c (recordResult statement c.words.length c₁.words.length
      (c₂.withPiece c₂.piece.emitRet)) fun _ => .returns (some (.result statement)) := by
  have hlays := lays_returns_value statement hresult hstraight
  obtain ⟨hran, hwords⟩ := emitRet_ran hstraight.ran.ready
  have hle := hresult.length_le
  have hle₂ := hstraight.length_le
  intro hbelow
  have hlow : ∀ b ∈ (recordResult statement c.words.length c₁.words.length
      (c₂.withPiece c₂.piece.emitRet)).blocks, b.stop ≤ c₁.words.length := by
    intro b hb
    have hb' : b ∈ c₂.blocks ++ [⟨c.words.length, c₁.words.length, .result statement⟩] := hb
    rw [hsame', hsame] at hb'
    rcases List.mem_append.mp hb' with hb | hb
    · exact Nat.le_trans (hbelow b hb) hle
    · obtain rfl := List.mem_singleton.mp hb
      exact Nat.le_refl _
  have hlen := hran.words.length_le
  refine ⟨fun b hb => Nat.le_trans (hlow b hb) (Nat.le_trans hle₂ hlen),
    fun cells blocks pending breakPc hfin _ rest t _ => ?_⟩
  have hagrees : Agrees cells pending (c₂.withPiece c₂.piece.emitRet).words := hfin.agrees
  have hagrees₂ := hagrees.of_append ⟨_, hwords.symm⟩
  obtain ⟨new, -, hnew⟩ := hstraight.straight
  have hcode := hresult.walk blocks (hagrees₂.of_append ⟨new, hnew.symm⟩)
  have hmem : ⟨c.words.length, c₁.words.length, .result statement⟩ ∈ blocks := by
    obtain ⟨later, rfl, -⟩ := hfin.blocks
    exact List.mem_append_left _ (List.mem_append_right _ List.mem_cons_self)
  refine ⟨.returns (some ⟨_, hmem⟩), rfl, _, hcode, c₂.words.length, ?_, ?_⟩
  · refine ⟨_, hstraight.walk blocks hagrees₂, seen_eq_nil fun i hi => ?_⟩
    have hrange := List.mem_range'_1.mp (List.mem_of_mem_filter hi)
    refine hfin.hidden (fun b hb => Nat.le_trans (hlow b hb) hrange.1) ?_
    exact Nat.lt_of_lt_of_le (by omega) hlen
  · have hret : (c₂.withPiece c₂.piece.emitRet).words[c₂.words.length]? = some .ret := by
      rw [hwords]
      exact List.getElem?_concat_length
    exact flow_of_ret (hagrees.not_arg hret (by simp))

theorem places_return (prevFrameOffset : ℤ) (e : ASTExpression) (location : SourceLocation)
    (h : Ready c)
    (herrors : (generateReturn prevFrameOffset (some e) location c).2.reporter.errors = 0) :
    Places c (generateReturn prevFrameOffset (some e) location c).2
      fun _ => .returns (some (.result (.return (some e) location))) := by
  have hready := (lays_return prevFrameOffset (some e) location h herrors).1.ready
  have hrecord : withBlock (.result (.return (some e) location)) (generateResult e location) c =
      ((generateResult e location c).1, recordResult (.return (some e) location) c.words.length
        (generateResult e location c).2.words.length (generateResult e location c).2) := by
    rw [c.length_words, GeneratorContext.length_words]
    rfl
  obtain ⟨hquiet, heq⟩ := quiet_return h herrors
  obtain ⟨-, hresult⟩ := straight_result e location h hquiet
  have hrelease := straight_releaseTo 0 hresult.ran.ready
  have hplaces := places_returns_value (.return (some e) location) hresult
    (DeclaresAt.framed_generateResult e location c).blocks hrelease (blocks_releaseTo 0 _)
  have hran := (lays_returns_value (.return (some e) location) hresult hrelease).1
  rw [heq, hrecord, bind_apply, releaseTo_recordResult]
  exact hplaces.setFrameOffset hran.ready prevFrameOffset

/-! ### Statements without bodies -/

theorem blocks_varDeclaration (typeString name : String) (e : Option ASTExpression)
    (location : SourceLocation) (c : GeneratorContext) :
    (generateVarDeclaration typeString name e location c).2.blocks = c.blocks := by
  unfold generateVarDeclaration
  rw [getContext_bind_apply, GeneratorM.ite_apply]
  split
  · generalize c.ast.convertFullType typeString c.currentScopeId = type
    generalize (alignUp (c.ast.sizeOfType type) 8 : ℤ) = size
    cases hadd : c.ast.addVariable .localId name c.currentScopeId type
        (c.currentFrameOffset - size) with
    | none =>
        rw [bind_apply, bind_apply]
        rfl
    | some ast =>
        rw [bind_apply, bind_apply]
        exact (framed_initializer e location type _ _).blocks
  · rfl

theorem places_expression (e : ASTExpression) (location : SourceLocation) (h : Ready c)
    (herrors : (generateExpressionStatement e c).2.reporter.errors = 0) :
    Places c (withBlock (.statement (.expression e location)) (generateExpressionStatement e) c).2
      (.plain (.statement (.expression e location))) := by
  have hframed : (generateExpressionStatement e).Framed :=
    (Framed.generateExpression e).bind fun _ => (Framed.popValue _ _ _).bind fun _ => .pure _
  exact (Recorded.withBlock (by simp) (straight_expressionStatement e h herrors)
    (hframed c).blocks).places

theorem places_varDeclaration (typeString name : String) (e : Option ASTExpression)
    (location : SourceLocation) (h : Ready c)
    (herrors : (generateVarDeclaration typeString name e location c).2.reporter.errors = 0) :
    Places c (withBlock (.statement (.varDeclaration typeString name e location))
      (generateVarDeclaration typeString name e location) c).2
      (.plain (.statement (.varDeclaration typeString name e location))) :=
  (Recorded.withBlock (by simp) (straight_varDeclaration typeString name e location h herrors).2
    (blocks_varDeclaration typeString name e location c)).places

theorem places_globalDeclaration (typeString name : String) (location : SourceLocation)
    (c : GeneratorContext) :
    Places c (generateGlobalDeclaration typeString name location c).2 id := by
  have hsame : (generateGlobalDeclaration typeString name location c).2.piece = c.piece ∧
      (generateGlobalDeclaration typeString name location c).2.blocks = c.blocks := by
    unfold generateGlobalDeclaration
    rw [getContext_bind_apply, GeneratorM.ite_apply]
    split
    · generalize c.ast.convertFullType typeString c.currentScopeId = type
      dsimp only
      rw [bind_apply]
      cases hadd : c.ast.addVariable .globalId name c.currentScopeId type
          ((c.bytecode.appendData (c.ast.sizeOfType type)).1 : ℤ) <;> exact ⟨rfl, rfl⟩
    · exact ⟨rfl, rfl⟩
  exact .of_same (by rw [GeneratorContext.words, hsame.1]; rfl) hsame.2

theorem places_constDeclaration (typeString name : String) (location : SourceLocation)
    (statement : ASTStatement) (c : GeneratorContext) :
    Places c (generateConstDeclaration typeString name location statement c).2 id := by
  have hsame : (generateConstDeclaration typeString name location statement c).2.piece = c.piece ∧
      (generateConstDeclaration typeString name location statement c).2.blocks = c.blocks := by
    unfold generateConstDeclaration
    rw [getContext_bind_apply, GeneratorM.ite_apply]
    split
    · generalize c.ast.convertFullType typeString c.currentScopeId = type
      cases hadd : c.ast.addVariable .constId name c.currentScopeId type 0 (some statement) <;>
        exact ⟨rfl, rfl⟩
    · exact ⟨rfl, rfl⟩
  exact .of_same (by rw [GeneratorContext.words, hsame.1]; rfl) hsame.2

theorem recorded_condition (e : ASTExpression) (statement : String) (h : Ready c)
    (herrors : (generateCondition e statement c).2.reporter.errors = 0) :
    Recorded (.condition e) c (generateCondition e statement c).2 := by
  refine ⟨(straight_condition e statement h herrors).2, ?_⟩
  rw [c.length_words, GeneratorContext.length_words]
  have hframed : (do
      let type ← generateExpression e
      if ← performCast type .bool then
        emit fun piece => piece.emitPop .a
        return true
      else
        let c ← getContext
        report e.location ("Condition of " ++ statement ++
          "-statement must evaluate to a type that can be casted to a boolean. Type was '" ++
          c.ast.nameOfType type ++ "'.")
        abandon e.location
        return false : GeneratorM Bool).Framed := by
    refine (Framed.generateExpression e).bind fun type => (Framed.performCast _ _).bind fun cast => ?_
    split
    · exact (Framed.emit _).bind fun _ => .pure _
    · exact Framed.getContext.bind fun _ => (Framed.report _ _).bind fun _ =>
        (Framed.abandon _).bind fun _ => .pure _
  exact congrArg (· ++ [_]) (hframed c).blocks

/-! ## The recursion -/

theorem PlacesBlock.of_same (hsame : Straightly c c₁) (hwords : c₁.words = c.words)
    (hblocks : c₁.blocks = c.blocks) (h : PlacesBlock c₁ c₂ program) : PlacesBlock c c₂ program := by
  intro hbelow
  obtain ⟨hbelow₂, hplaces⟩ := h (hbelow.of_same (Nat.le_of_eq (by rw [hwords])) hblocks)
  refine ⟨hbelow₂, fun cells blocks pending breakPc hfin hpending => ?_⟩
  have hlies := hplaces cells blocks pending breakPc hfin
    (hpending.right (Nat.le_of_eq (by rw [hwords])))
  rwa [hwords, hsame.loops] at hlies

/-- Glue behind a block. -/
theorem PlacesBlock.extend (h : PlacesBlock c c₁ program) (hstraight : Straightly c₁ c₂)
    (hblocks : c₂.blocks = c₁.blocks) : PlacesBlock c c₂ program := by
  intro hbelow
  obtain ⟨hbelow₁, hplaces⟩ := h hbelow
  refine ⟨hbelow₁.of_same hstraight.length_le hblocks,
    fun cells blocks pending breakPc hfin hpending => ?_⟩
  obtain ⟨labelled, hkinds, hlies⟩ := hplaces cells blocks pending breakPc (hstraight.back hfin)
    (hpending.left hstraight.ran)
  exact ⟨labelled, hkinds,
    hlies.extend labelled (hstraight.glue hfin fun b hb => hbelow₁ b (hblocks ▸ hb))⟩

/-- The generator stops only behind a statement that leaves its block. -/
theorem structured_of_stop (prevFrameOffset : ℤ) (statement : ASTStatement) (h : Ready c)
    (herrors : (generateStatement prevFrameOffset statement c).2.reporter.errors = 0)
    (hstop : (generateStatement prevFrameOffset statement c).1 = .stop)
    (rest : Structured BlockKind) :
    structuredOfStatement statement rest = structuredOfStatement statement .done := by
  unfold generateStatement at herrors hstop
  match statement with
  | .expression e location => cases hstop
  | .globalDeclaration type name _ location =>
      exact absurd hstop (straight_globalDeclaration type name location h herrors).1
  | .constDeclaration type name e location =>
      exact absurd hstop (straight_constDeclaration type name location _ h herrors).1
  | .varDeclaration type name e location =>
      exact absurd hstop (straight_varDeclaration type name e location h herrors).1
  | .while condition body _ =>
      dsimp only at hstop
      rw [bind_apply, bind_apply, GeneratorM.ite_apply] at hstop
      split at hstop <;> cases hstop
  | .ifElse condition body none _ =>
      dsimp only at hstop
      rw [bind_apply, GeneratorM.ite_apply] at hstop
      split at hstop <;> cases hstop
  | .ifElse condition body (some elseBody) _ =>
      dsimp only at hstop
      rw [bind_apply, GeneratorM.ite_apply] at hstop
      split at hstop <;> cases hstop
  | .break _ => simp only [structuredOfStatement]
  | .continue _ => simp only [structuredOfStatement]
  | .return none _ => simp only [structuredOfStatement]
  | .return (some e) _ => simp only [structuredOfStatement]

end Statements

section Recursion

variable {c : GeneratorContext}

mutual

theorem generateBody_places : ∀ (body : ASTBody) {c : GeneratorContext}, Ready c →
    (generateBody body c).2.reporter.errors = 0 → ReturnsTrue body c →
      PlacesBlock c (generateBody body c).2 body.structured
  | .mk scopeId statements, c, h, herrors, htrue => by
      have hscope := straight_setScope scopeId h
      unfold ReturnsTrue at htrue
      obtain ⟨hreturned, hall⟩ := htrue
      unfold generateBody at herrors hreturned ⊢
      rw [getContext_bind_apply, bind_apply, bind_apply] at herrors hreturned ⊢
      rw [GeneratorM.ite_apply] at herrors hreturned ⊢
      by_cases hcompleted : (generateStatements c.currentFrameOffset statements
          (setScope scopeId c).2).1 = true
      · rw [if_pos hcompleted] at herrors hreturned ⊢
        have hrest : (do
            releaseTo c.currentFrameOffset
            setFrameOffset c.currentFrameOffset
            setScope c.currentScopeId
            return true : GeneratorM Bool).Keeps :=
          (GeneratorM.Keeps.releaseTo _).bind fun _ => (GeneratorM.Keeps.setFrameOffset _).bind
            fun _ => (GeneratorM.Keeps.setScope _).bind fun _ => .pure _
        have hquiet := hrest.quiet herrors
        have hlays := generateStatements_laid c.currentFrameOffset statements
          hscope.ran.ready hquiet
        have hplaces := generateStatements_places c.currentFrameOffset statements
          hscope.ran.ready hquiet hcompleted hall
        have hrelease := straight_releaseTo c.currentFrameOffset hlays.1.ready
        have hframe := straight_setFrameOffset c.currentFrameOffset hrelease.ran.ready
        unfold ASTBody.structured
        exact .of_same hscope rfl rfl (hplaces.extend (hrelease.trans (hframe.trans
          (straight_setScope c.currentScopeId hframe.ran.ready))) (blocks_releaseTo _ _))
      · rw [if_neg hcompleted] at hreturned
        cases hreturned

theorem generateStatements_places (prevFrameOffset : ℤ) : ∀ (statements : List ASTStatement)
    {c : GeneratorContext}, Ready c →
    (generateStatements prevFrameOffset statements c).2.reporter.errors = 0 →
    (generateStatements prevFrameOffset statements c).1 = true →
    AllReturnTrue prevFrameOffset statements c →
      PlacesBlock c (generateStatements prevFrameOffset statements c).2
        (structuredOfStatements statements)
  | [], c, _, _, _, _ => by
      unfold generateStatements structuredOfStatements
      exact .done c
  | statement :: rest, c, h, herrors, hcompleted, hall => by
      have hstart := straight_recordStart h
      unfold generateStatements at herrors hcompleted ⊢
      unfold AllReturnTrue at hall
      unfold structuredOfStatements
      rw [bind_apply, bind_apply] at herrors hcompleted ⊢
      refine .of_same hstart rfl rfl ?_
      obtain ⟨hnested, hall⟩ := hall
      generalize (recordStart c).2 = c₁ at hstart herrors hcompleted hnested hall ⊢
      cases hresult : (generateStatement prevFrameOffset statement c₁).1 with
      | next =>
          rw [hresult] at herrors hcompleted
          have hquiet := (GeneratorM.Keeps.generateStatements prevFrameOffset rest).quiet herrors
          have hlays := generateStatement_lays prevFrameOffset statement hstart.ran.ready hquiet
          have hplaces := generateStatement_places prevFrameOffset statement hstart.ran.ready
            hquiet hnested
          have hready := hlays.1.ready
          exact hplaces.append hlays.1 (generateStatements_laid prevFrameOffset rest hready herrors)
            (generateStatements_places prevFrameOffset rest hready herrors hcompleted (hall hresult))
      | stop =>
          rw [hresult] at herrors
          have hlays := generateStatement_lays prevFrameOffset statement hstart.ran.ready herrors
          have hplaces := generateStatement_places prevFrameOffset statement hstart.ran.ready
            herrors hnested
          rw [structured_of_stop prevFrameOffset statement hstart.ran.ready herrors hresult]
          exact hplaces.last hlays.1
      | failed =>
          rw [hresult] at hcompleted
          cases hcompleted

theorem generateStatement_places (prevFrameOffset : ℤ) : ∀ (statement : ASTStatement)
    {c : GeneratorContext}, Ready c →
    (generateStatement prevFrameOffset statement c).2.reporter.errors = 0 →
    NestedReturnTrue statement c →
      Places c (generateStatement prevFrameOffset statement c).2
        fun rest => structuredOfStatement statement rest
  | .expression e location, c, h, herrors, _ => by
      unfold generateStatement at herrors ⊢
      simp only [structuredOfStatement]
      exact places_expression e location h herrors
  | .globalDeclaration type name _ location, c, h, herrors, _ => by
      unfold generateStatement
      simp only [structuredOfStatement]
      exact places_globalDeclaration type name location c
  | .constDeclaration type name e location, c, h, herrors, _ => by
      unfold generateStatement
      simp only [structuredOfStatement]
      exact places_constDeclaration type name location _ c
  | .varDeclaration type name e location, c, h, herrors, _ => by
      unfold generateStatement at herrors ⊢
      simp only [structuredOfStatement]
      exact places_varDeclaration type name e location h herrors
  | .while condition body location, c, h, herrors, hnested => by
      unfold NestedReturnTrue at hnested
      simp only [structuredOfStatement]
      obtain ⟨hquiet, heq⟩ := quiet_while h herrors
      rw [heq]
      exact places_while h (recorded_condition condition "while" (ready_pushLoop h) hquiet.accepted)
        (generateBody_laid body hquiet.ready hquiet.inside)
        (generateBody_places body hquiet.ready hquiet.inside hnested)
  | .ifElse condition body none location, c, h, herrors, hnested => by
      unfold NestedReturnTrue at hnested
      simp only [structuredOfStatement]
      obtain ⟨hquiet, heq⟩ := quiet_ifThen h herrors
      rw [heq]
      exact places_ifThen (recorded_condition condition "if" h hquiet.accepted)
        (generateBody_laid body hquiet.ready hquiet.inside)
        (generateBody_places body hquiet.ready hquiet.inside hnested)
  | .ifElse condition body (some elseBody) location, c, h, herrors, hnested => by
      unfold NestedReturnTrue at hnested
      simp only [structuredOfStatement]
      obtain ⟨hquiet, helse, hinside, heq⟩ := quiet_ifElse h herrors
      rw [heq]
      exact places_ifElse (recorded_condition condition "if" h hquiet.accepted)
        (generateBody_laid body hquiet.ready hquiet.inside)
        (generateBody_places body hquiet.ready hquiet.inside hnested.1)
        (generateBody_laid elseBody helse hinside)
        (generateBody_places elseBody helse hinside hnested.2)
  | .break location, c, h, herrors, _ => by
      unfold generateStatement at herrors ⊢
      simp only [structuredOfStatement]
      exact places_break prevFrameOffset location h herrors
  | .continue location, c, h, herrors, _ => by
      unfold generateStatement at herrors ⊢
      simp only [structuredOfStatement]
      exact places_continue prevFrameOffset location h herrors
  | .return none location, c, h, herrors, _ => by
      unfold generateStatement
      simp only [structuredOfStatement]
      have hrelease := straight_releaseTo 0 h
      have hran := (lays_returns hrelease).1
      exact (places_returns hrelease (blocks_releaseTo 0 c)).setFrameOffset hran.ready prevFrameOffset
  | .return (some e) location, c, h, herrors, _ => by
      unfold generateStatement at herrors ⊢
      simp only [structuredOfStatement]
      exact places_return prevFrameOffset e location h herrors

end

end Recursion

/-! ## The whole function -/

namespace AcceptedFunction

variable (F : AcceptedFunction)

/-- The code of the function, with its recorded blocks. -/
abbrev codeGraph : CodeGraph ℕ {b : Block // b ∈ F.finish.blocks} :=
  blockGraph F.cells F.finish.blocks

theorem below_bodyStart : Below F.bodyStart := by
  have hblocks : F.bodyStart.blocks = [] := ((plainly_prologue F.function).2 F.start).2.2
  intro b hb
  rw [hblocks] at hb
  exact absurd hb List.not_mem_nil

theorem finishes_finish : Finishes F.cells F.finish.blocks ∅ 0 F.finish := by
  obtain ⟨-, -, hloops⟩ := F.ran_finish
  refine ⟨fun i word hword => .inl hword, fun r hr => ?_, [], (List.append_nil _).symm, by simp⟩
  rw [hloops] at hr
  exact absurd hr List.not_mem_nil

/-- Behind the body control leaves with the final `ret`, or comes to the end of the cells. -/
theorem quits_bodyEnd (hbelow : Below F.bodyEnd) : F.codeGraph.Quits F.bodyEnd.words.length := by
  by_cases hadds : F.AddsRet
  · obtain ⟨-, heq⟩ := F.finish_of_addsRet hadds
    have hrelease := straight_releaseTo 0 F.laysBlock_body.1.ready
    have hfin : ∀ c, F.finish = c → Finishes F.cells F.finish.blocks ∅ 0 c := by
      rintro _ rfl
      exact F.finishes_finish
    have hleaves : F.codeGraph.Leaves F.bodyEnd.words.length := by
      refine leaves_of_ret hrelease (fun b hb => hbelow b ?_) (hfin _ heq)
      rwa [blocks_releaseTo] at hb
    obtain ⟨t, hglue, hflow⟩ := hleaves
    exact ⟨t, hglue, .inl hflow⟩
  · refine ⟨_, .refl _, .inr ?_⟩
    show flowOf F.cells F.bodyEnd.words.length = .stuck
    rw [← F.length_cells_of_not_addsRet hadds, flowOf, List.getElem?_eq_none (Nat.le_refl _)]

/-- The code of the body stands behind the prologue. -/
theorem stands (htrue : ReturnsTrue F.body F.bodyStart) :
    F.codeGraph.Glue 0 F.bodyStart.words.length ∧
      ∃ labelled : Structured {b : Block // b ∈ F.finish.blocks},
        labelled.map (fun b => b.1.kind) = F.body.structured ∧
          F.codeGraph.Stands ⟨labelled, []⟩ F.bodyStart.words.length := by
  have hpending : PendingIn F.bodyStart F.bodyEnd ∅ := fun r hr => absurd hr (Set.notMem_empty r)
  obtain ⟨hbelow, hplaces⟩ := generateBody_places F.body F.straight_bodyStart.ran.ready
    F.errors_bodyEnd htrue F.below_bodyStart
  obtain ⟨hfin, -⟩ := F.laysBlock_body.2 _ _ _ _ F.finishes hpending
  obtain ⟨labelled, hkinds, hlies⟩ := hplaces _ _ _ _ F.finishes hpending
  have hstart : F.bodyStart.loopScopes = [] := F.straight_bodyStart.loops
  rw [hstart] at hlies
  refine ⟨F.straight_bodyStart.glue hfin fun b hb => ?_, labelled, hkinds, none, _, hlies,
    .nil (F.quits_bodyEnd hbelow)⟩
  have hblocks : F.bodyStart.blocks = [] := ((plainly_prologue F.function).2 F.start).2.2
  rw [hblocks] at hb
  exact absurd hb List.not_mem_nil

open Structured (Event State answers)

/-- What is seen of the execution of recorded blocks. -/
abbrev kinds (executed : List (Event {b : Block // b ∈ F.finish.blocks})) :
    List (Event BlockKind) := executed.map (Event.map fun b => b.1.kind)

section Runs

variable {F} (htrue : ReturnsTrue F.body F.bodyStart)

include htrue

variable {ps : List ℕ} {bs : List Bool} {i : ℕ}

/-- What a path executes is the code of a run, as far as it goes. -/
theorem exists_run (hwalk : F.codeGraph.Walk 0 ps bs i) :
    ∃ executed state, (State.mk F.body.structured []).Run (F.kinds executed) state ∧
      F.codeGraph.seen ps <+: F.codeGraph.codeOf executed ∧ bs <+: answers executed := by
  obtain ⟨⟨front, hfront, hsilent⟩, labelled, hkinds, hstands⟩ := F.stands htrue
  have hstate : (State.mk labelled []).map (fun b => b.1.kind) =
      State.mk F.body.structured [] := by rw [State.map, hkinds, List.map_nil]
  rcases hfront.split hwalk (.inl List.nil_prefix) with ⟨hps, hbs⟩ | ⟨ps', bs', rfl, rfl, hrest⟩
  · have hseen : F.codeGraph.seen ps <+: F.codeGraph.seen front := CodeGraph.seen_prefix hps
    rw [hsilent] at hseen
    exact ⟨[], _, .refl _, hseen, hbs⟩
  · obtain ⟨executed, state, hrun, hseen, hbs⟩ := hstands.exists_run ps' _ hrest
    refine ⟨executed, _, hstate ▸ hrun.map _, ?_, hbs⟩
    rw [CodeGraph.seen_append, hsilent, List.nil_append]
    exact hseen

/-- A path to a `ret` executes the code of a whole run. -/
theorem exists_finished_run (hwalk : F.codeGraph.Walk 0 ps bs i)
    (hleave : flowOf F.cells i = .leave) :
    ∃ executed state, (State.mk F.body.structured []).Run (F.kinds executed) state ∧
      state.Finished ∧ F.codeGraph.seen ps = F.codeGraph.codeOf executed ∧ bs = answers executed := by
  obtain ⟨⟨front, hfront, hsilent⟩, labelled, hkinds, hstands⟩ := F.stands htrue
  have hstate : (State.mk labelled []).map (fun b => b.1.kind) =
      State.mk F.body.structured [] := by rw [State.map, hkinds, List.map_nil]
  obtain ⟨ps', bs', rfl, rfl, hrest⟩ :=
    hfront.split_of_leave hwalk hleave (.inl List.nil_prefix)
  obtain ⟨executed, state, hrun, hfinished, hseen, rfl⟩ :=
    hstands.exists_finished_run ps' _ hrest hleave
  refine ⟨executed, _, hstate ▸ hrun.map _, hfinished.map _, ?_, rfl⟩
  rw [CodeGraph.seen_append, hsilent, List.nil_append, hseen]

end Runs

end AcceptedFunction

end TinCompiler
