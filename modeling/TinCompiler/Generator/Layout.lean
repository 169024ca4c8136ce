import TinCompiler.Expressions.Growth
import TinCompiler.Generator.Tables
import TinCompiler.Machine.Paths

/-!
# Where the code of a body lies

`controlOfBody` is the block of statements that the generator makes code for, and
`generateBody_laid` says that the code of the body lies in the piece as the block wants it.
The statement is about the finished piece: behind the body more code follows, and the jumps
that are still open are given their targets.  So it is assumed that the finished piece agrees
with what is there so far (`Finishes`), up to a set of immediates that are still pending.
-/

namespace TinCompiler

open GeneratorM

/-! ## What a context says about the code -/

namespace GeneratorContext

def words (c : GeneratorContext) : List Word := c.piece.instructions.map Cell.word

theorem length_words (c : GeneratorContext) : c.words.length = c.piece.getPc :=
  List.length_map _

def Coded (c : GeneratorContext) : Prop := ∃ ops, Assembles c.piece ops ∧ SoundOps ops

end GeneratorContext

/-- The code of the value of a return statement. -/
def Block.IsResult (b : Block) : Prop := ∃ statement, b.kind = .result statement

/-- The words are still there, but an immediate may have another value. -/
def KeepsWords (words words' : List Word) : Prop :=
  ∀ (i : ℕ) (word : Word), words[i]? = some word →
    words'[i]? = some word ∨ ∃ v v' : ℤ, word = .arg v ∧ words'[i]? = some (.arg v')

namespace KeepsWords

variable {words words' words'' : List Word}

theorem of_append (h : words <+: words') : KeepsWords words words' := by
  obtain ⟨new, rfl⟩ := h
  intro i word hword
  rw [List.getElem?_append_left (List.getElem?_eq_some_iff.mp hword).1]
  exact .inl hword

theorem trans (h : KeepsWords words words') (h' : KeepsWords words' words'') :
    KeepsWords words words'' := by
  intro i word hword
  rcases h i word hword with hsame | ⟨v, v', rfl, harg⟩
  · exact h' i word hsame
  · rcases h' i _ harg with hsame | ⟨_, v'', _, harg'⟩
    · exact .inr ⟨v, v', rfl, hsame⟩
    · exact .inr ⟨v, v'', rfl, harg'⟩

theorem arg (h : KeepsWords words words') {i : ℕ} {v : ℤ} (harg : words[i]? = some (.arg v)) :
    ∃ v', words'[i]? = some (.arg v') := by
  rcases h i _ harg with hsame | ⟨_, v', _, harg'⟩
  · exact ⟨v, hsame⟩
  · exact ⟨v', harg'⟩

theorem ret (h : KeepsWords words words') {i : ℕ} (hret : words[i]? = some .ret) :
    words'[i]? = some .ret := by
  rcases h i _ hret with hsame | ⟨_, _, heq, _⟩
  · exact hsame
  · cases heq

theorem length_le (h : KeepsWords words words') : words.length ≤ words'.length := by
  by_contra hlt
  obtain ⟨word, hword⟩ : ∃ word, words[words'.length]? = some word :=
    ⟨_, List.getElem?_eq_getElem (by omega)⟩
  rcases h _ word hword with h | ⟨_, _, _, h⟩ <;> simp at h

theorem set {r : ℕ} {v : ℤ} (v' : ℤ) (hr : words[r]? = some (.arg v)) :
    KeepsWords words (words.set r (.arg v')) := by
  intro i word hword
  by_cases heq : r = i
  · subst heq
    obtain rfl := Option.some.inj (hr.symm.trans hword)
    refine .inr ⟨v, v', rfl, ?_⟩
    rw [List.getElem?_set_self (List.getElem?_eq_some_iff.mp hr).1]
  · exact .inl (by rw [List.getElem?_set_ne heq, hword])

end KeepsWords

/-! ## The effect of a statement -/

/-- `breaks_to_resolve` of the innermost loop. -/
def innerBreaks (loops : List LoopScope) : List ℕ :=
  (loops.getLast?.map LoopScope.breaksToResolve).getD []

@[simp] theorem innerBreaks_concat (loops : List LoopScope) (loop : LoopScope) :
    innerBreaks (loops ++ [loop]) = loop.breaksToResolve := by
  simp [innerBreaks]

/-- What the generator can go on from: the code consists of operations, and behind the code of
every returned value is its `ret`. -/
structure Ready (c : GeneratorContext) : Prop where
  coded : c.Coded
  prim : c.ast.HasPrimitives
  results : ∀ b ∈ c.blocks, b.IsResult → ∃ r, b.stop ≤ r ∧ c.words[r]? = some .ret
  breaks : ∀ r ∈ innerBreaks c.loopScopes, r < c.words.length

/-- The innermost loop may have new breaks, in the new code. -/
def LoopsGrow (c c' : GeneratorContext) : Prop :=
  c'.loopScopes = c.loopScopes ∨ ∃ init loop new, c.loopScopes = init ++ [loop] ∧
    c'.loopScopes = init ++ [{ loop with breaksToResolve := loop.breaksToResolve ++ new }] ∧
    ∀ r ∈ new, c.words.length ≤ r ∧ ∃ v, c'.words[r]? = some (.arg v)

/-- The new blocks are in the new code. -/
def BlocksGrow (c c' : GeneratorContext) : Prop :=
  ∃ new, c'.blocks = c.blocks ++ new ∧ ∀ b ∈ new, c.words.length ≤ b.start ∧ b.start ≤ b.stop

structure Ran (c c' : GeneratorContext) : Prop where
  ready : Ready c'
  words : KeepsWords c.words c'.words
  loops : LoopsGrow c c'
  blocks : BlocksGrow c c'

namespace Ran

variable {c c' c'' : GeneratorContext}

theorem refl (h : Ready c) : Ran c c :=
  ⟨h, .of_append List.prefix_rfl, .inl rfl, [], (List.append_nil _).symm, by simp⟩

theorem trans (h : Ran c c') (h' : Ran c' c'') : Ran c c'' where
  ready := h'.ready
  words := h.words.trans h'.words
  loops := by
    have hle := h.words.length_le
    rcases h.loops with heq | ⟨init, loop, new, hold, hnew, hrange⟩
    · rcases h'.loops with heq' | ⟨init, loop, new, hold, hnew, hrange⟩
      · exact .inl (heq'.trans heq)
      · refine .inr ⟨init, loop, new, heq ▸ hold, hnew, fun r hr => ?_⟩
        exact ⟨Nat.le_trans hle (hrange r hr).1, (hrange r hr).2⟩
    · have hargs : ∀ r ∈ new, c.words.length ≤ r ∧ ∃ v, c''.words[r]? = some (.arg v) :=
        fun r hr => ⟨(hrange r hr).1, h'.words.arg (hrange r hr).2.choose_spec⟩
      rcases h'.loops with heq' | ⟨init', loop', new', hold', hnew', hrange'⟩
      · exact .inr ⟨init, loop, new, hold, heq'.trans hnew, hargs⟩
      · obtain ⟨rfl, hloop⟩ := List.append_inj' (hnew.symm.trans hold') rfl
        obtain rfl := List.singleton_inj.mp hloop
        refine .inr ⟨init, loop, new ++ new', hold, ?_, fun r hr => ?_⟩
        · rw [hnew', List.append_assoc]
        · rcases List.mem_append.mp hr with hr | hr
          · exact hargs r hr
          · exact ⟨Nat.le_trans hle (hrange' r hr).1, (hrange' r hr).2⟩
  blocks := by
    obtain ⟨new, heq, hnew⟩ := h.blocks
    obtain ⟨new', heq', hnew'⟩ := h'.blocks
    refine ⟨new ++ new', by rw [heq', heq, List.append_assoc], fun b hb => ?_⟩
    rcases List.mem_append.mp hb with hb | hb
    · exact hnew b hb
    · exact ⟨Nat.le_trans h.words.length_le (hnew' b hb).1, (hnew' b hb).2⟩

end Ran

/-- Only straight code is new. -/
structure Straightly (c c' : GeneratorContext) : Prop where
  ran : Ran c c'
  straight : ∃ new, StraightWords new ∧ c'.words = c.words ++ new
  loops : c'.loopScopes = c.loopScopes

namespace Straightly

variable {c c' c'' : GeneratorContext}

theorem refl (h : Ready c) : Straightly c c := ⟨.refl h, ⟨[], .nil, (List.append_nil _).symm⟩, rfl⟩

theorem trans (h : Straightly c c') (h' : Straightly c' c'') : Straightly c c'' where
  ran := h.ran.trans h'.ran
  straight := by
    obtain ⟨new, hnew, heq⟩ := h.straight
    obtain ⟨new', hnew', heq'⟩ := h'.straight
    exact ⟨new ++ new', hnew.append hnew', by rw [heq', heq, List.append_assoc]⟩
  loops := h'.loops.trans h.loops

/-- What was emitted keeps the words, and nothing else of interest is different. -/
theorem of_grows {firm : Prop} (h : Ready c) (hgrows : Emits (Grows firm) c.piece c'.piece)
    (hprim : c'.ast.HasPrimitives) (hloops : c'.loopScopes = c.loopScopes)
    (hblocks : c'.blocks = c.blocks) : Straightly c c' := by
  obtain ⟨ops, hasm, hsound⟩ := h.coded
  obtain ⟨ops', hasm', hsound', hr⟩ := hgrows ops hasm hsound
  obtain ⟨new, hnew, heq⟩ := hr.appends
  have hwords : c'.words = c.words ++ new := by
    rw [GeneratorContext.words, GeneratorContext.words, hasm.instructions, hasm'.instructions,
      ← wordsOf_eq, ← wordsOf_eq, heq]
  have hkeeps : KeepsWords c.words c'.words := .of_append (hwords ▸ List.prefix_append _ _)
  refine ⟨⟨⟨⟨ops', hasm', hsound'⟩, hprim, fun b hb hresult => ?_, fun r hr => ?_⟩, hkeeps,
    .inl hloops, [], ?_, ?_⟩, ⟨new, hnew, hwords⟩, hloops⟩
  · obtain ⟨r, hr, hret⟩ := h.results b (hblocks ▸ hb) hresult
    exact ⟨r, hr, hkeeps.ret hret⟩
  · exact Nat.lt_of_lt_of_le (h.breaks r (hloops ▸ hr)) hkeeps.length_le
  · rw [hblocks, List.append_nil]
  · simp

theorem of_same (h : Ready c) (hpiece : c'.piece = c.piece) (hprim : c'.ast.HasPrimitives)
    (hloops : c'.loopScopes = c.loopScopes) (hblocks : c'.blocks = c.blocks) :
    Straightly c c' := by
  have hgrows : Emits (Grows False) c.piece c'.piece := by
    rw [hpiece]
    exact .refl c.piece
  exact of_grows h hgrows hprim hloops hblocks

theorem length_le (h : Straightly c c') : c.words.length ≤ c'.words.length := h.ran.words.length_le

/-- A block for what was emitted. -/
theorem addBlock (h : Straightly c c') {kind : BlockKind}
    (hkind : ∀ statement, kind ≠ .result statement) :
    Straightly c
      { c' with blocks := c'.blocks ++ [⟨c.piece.getPc, c'.piece.getPc, kind⟩] } where
  ran := by
    obtain ⟨new, heq, hnew⟩ := h.ran.blocks
    refine ⟨⟨h.ran.ready.coded, h.ran.ready.prim, fun b hb hresult => ?_, h.ran.ready.breaks⟩, h.ran.words,
      h.ran.loops, new ++ [⟨c.piece.getPc, c'.piece.getPc, kind⟩], ?_, fun b hb => ?_⟩
    · rcases List.mem_append.mp hb with hb | hb
      · exact h.ran.ready.results b hb hresult
      · obtain rfl := List.mem_singleton.mp hb
        exact absurd hresult.choose_spec (hkind _)
    · change c'.blocks ++ _ = _
      rw [heq, List.append_assoc]
    · rcases List.mem_append.mp hb with hb | hb
      · exact hnew b hb
      · obtain rfl := List.mem_singleton.mp hb
        have hle := h.length_le
        rw [c.length_words, c'.length_words] at hle
        exact ⟨Nat.le_of_eq c.length_words, hle⟩
  straight := h.straight
  loops := h.loops

end Straightly

/-! ## The finished piece -/

/-- The finished piece has the words, with other values at most in pending immediates. -/
def Agrees (cells : List Cell) (pending : Set ℕ) (words : List Word) : Prop :=
  ∀ (i : ℕ) (word : Word), words[i]? = some word → (cells.map Cell.word)[i]? = some word ∨
    (i ∈ pending ∧ ∃ v v' : ℤ, word = .arg v ∧ (cells.map Cell.word)[i]? = some (.arg v'))

namespace Agrees

variable {cells : List Cell} {pending : Set ℕ} {words : List Word}

theorem of_append {words' : List Word} (h : Agrees cells pending words') (hfront : words <+: words') :
    Agrees cells pending words := by
  obtain ⟨new, rfl⟩ := hfront
  intro i word hword
  refine h i word ?_
  rw [List.getElem?_append_left (List.getElem?_eq_some_iff.mp hword).1, hword]

theorem exact {i : ℕ} {word : Word} (h : Agrees cells pending words) (hword : words[i]? = some word)
    (hi : i ∉ pending) : (cells.map Cell.word)[i]? = some word :=
  (h i word hword).resolve_right fun h => hi h.1

/-- Only immediates are pending. -/
theorem not_arg {i : ℕ} {word : Word} (h : Agrees cells pending words)
    (hword : words[i]? = some word) (hne : ∀ v, word ≠ .arg v) :
    (cells.map Cell.word)[i]? = some word :=
  (h i word hword).resolve_right fun h => hne _ h.2.choose_spec.choose_spec.1

/-- Before the immediate at `r` got its value it was pending. -/
theorem of_set {r : ℕ} {v v' : ℤ} (h : Agrees cells pending (words.set r (.arg v')))
    (hr : words[r]? = some (.arg v)) : Agrees cells (insert r pending) words := by
  have hlt : r < words.length := (List.getElem?_eq_some_iff.mp hr).1
  intro i word hword
  by_cases heq : r = i
  · subst heq
    obtain rfl := Option.some.inj (hr.symm.trans hword)
    rcases h r _ (List.getElem?_set_self hlt) with h | ⟨-, _, v'', _, h⟩
    · exact .inr ⟨.inl rfl, v, v', rfl, h⟩
    · exact .inr ⟨.inl rfl, v, v'', rfl, h⟩
  · rcases h i word (by rw [List.getElem?_set_ne heq, hword]) with h | ⟨hi, h⟩
    · exact .inl h
    · exact .inr ⟨.inr hi, h⟩

theorem mono {pending' : Set ℕ} (h : Agrees cells pending words) (hsub : pending ⊆ pending') :
    Agrees cells pending' words :=
  fun i word hword => (h i word hword).imp_right fun h => ⟨hsub h.1, h.2⟩

end Agrees

/-- The piece `cells` with the blocks `blocks` is finished from `c` on: the code agrees, the
breaks of the innermost loop go to `breakPc`, and the blocks that were added are behind. -/
structure Finishes (cells : List Cell) (blocks : List Block) (pending : Set ℕ) (breakPc : ℕ)
    (c : GeneratorContext) : Prop where
  agrees : Agrees cells pending c.words
  breaks : ∀ r ∈ innerBreaks c.loopScopes, (cells.map Cell.word)[r]? = some (.arg (breakPc - r))
  blocks : ∃ later, blocks = c.blocks ++ later ∧
    ∀ b ∈ later, c.words.length ≤ b.start ∧ b.start ≤ b.stop

/-- What backs the `ret` at `a`: the instructions of the code of a returned value, with no
other `ret` behind it. -/
def Backs (cells : List Cell) (blocks : List Block) (l : List ℕ) (a : ℕ) : Prop :=
  ∃ b ∈ blocks, b.IsResult ∧ b.stop ≤ a ∧
    (∀ k, b.stop ≤ k → k < a → cells[k]? ≠ some (.inst .ret)) ∧
    ∀ x, x ∈ l ↔ (b.start ≤ x ∧ x < b.stop) ∧ ∃ inst, cells[x]? = some (.inst inst)

/-- The paths through a piece, and the code behind which each `ret` belongs. -/
def pieceGraph (cells : List Cell) (blocks : List Block) : FlowGraph ℕ :=
  flowGraph cells (Backs cells blocks)

theorem LoopsGrow.innerBreaks_subset {c c' : GeneratorContext} (h : LoopsGrow c c') :
    innerBreaks c.loopScopes ⊆ innerBreaks c'.loopScopes := by
  rcases h with heq | ⟨init, loop, new, hold, hnew, -⟩
  · rw [heq]
    exact List.Subset.refl _
  · rw [hold, hnew, innerBreaks_concat, innerBreaks_concat]
    exact List.subset_append_left _ _

section Finished

variable {cells : List Cell} {blocks : List Block} {pending pending' : Set ℕ} {breakPc : ℕ}
  {c c' : GeneratorContext}

/-- What is finished behind a statement is finished before it. -/
theorem Finishes.back (h : Finishes cells blocks pending breakPc c') (hran : Ran c c')
    (hagrees : Agrees cells pending' c.words) : Finishes cells blocks pending' breakPc c where
  agrees := hagrees
  breaks := fun r hr => h.breaks r (hran.loops.innerBreaks_subset hr)
  blocks := by
    obtain ⟨new, heq, hnew⟩ := hran.blocks
    obtain ⟨later, rfl, hlater⟩ := h.blocks
    refine ⟨new ++ later, by rw [heq, List.append_assoc], fun b hb => ?_⟩
    rcases List.mem_append.mp hb with hb | hb
    · exact hnew b hb
    · exact ⟨Nat.le_trans hran.words.length_le (hlater b hb).1, (hlater b hb).2⟩

theorem Straightly.back (h : Straightly c c') (hfin : Finishes cells blocks pending breakPc c') :
    Finishes cells blocks pending breakPc c := by
  obtain ⟨new, -, heq⟩ := h.straight
  exact hfin.back h.ran (hfin.agrees.of_append ⟨new, heq.symm⟩)

/-- Straight code is a segment of the finished piece. -/
theorem Straightly.segment (h : Straightly c c') (blocks : List Block)
    (hagrees : Agrees cells pending c'.words) :
    ∃ l, (pieceGraph cells blocks).Segment c.words.length l c'.words.length ∧
      ∀ x, x ∈ l ↔ (c.words.length ≤ x ∧ x < c'.words.length) ∧
        ∃ inst, cells[x]? = some (.inst inst) := by
  obtain ⟨new, hnew, heq⟩ := h.straight
  have hlen : c'.words.length = c.words.length + new.length := by rw [heq, List.length_append]
  have hwords : ∀ k word, new[k]? = some word →
      ∃ word', (cells.map Cell.word)[c.words.length + k]? = some word' ∧
        (word' = word ∨ ∃ v v', word = .arg v ∧ word' = .arg v') := by
    intro k word hword
    have hword' : c'.words[c.words.length + k]? = some word := by
      rw [heq, List.getElem?_append_right (Nat.le_add_right _ _), Nat.add_sub_cancel_left, hword]
    rcases hagrees _ _ hword' with h | ⟨-, v, v', hv, h⟩
    · exact ⟨word, h, .inl rfl⟩
    · exact ⟨_, h, .inr ⟨v, v', hv, rfl⟩⟩
  rw [hlen]
  exact segment_of_straight hnew hwords

end Finished

theorem LoopsGrow.innerBreaks_cases {c c' : GeneratorContext} (h : LoopsGrow c c') {r : ℕ}
    (hr : r ∈ innerBreaks c'.loopScopes) : r ∈ innerBreaks c.loopScopes ∨ c.words.length ≤ r := by
  rcases h with heq | ⟨init, loop, new, hold, hnew, hrange⟩
  · exact .inl (heq ▸ hr)
  · rw [hnew, innerBreaks_concat] at hr
    rw [hold, innerBreaks_concat]
    exact (List.mem_append.mp hr).imp_right fun hr => (hrange r hr).1

/-- Pending immediates are in front of the code, behind it, or breaks of the innermost loop. -/
def PendingIn (c c' : GeneratorContext) (pending : Set ℕ) : Prop :=
  ∀ r ∈ pending, r < c.words.length ∨ c'.words.length ≤ r ∨ r ∈ innerBreaks c'.loopScopes

namespace PendingIn

variable {c c₁ c' : GeneratorContext} {pending : Set ℕ}

/-- For the first part of the code. -/
theorem left (h : PendingIn c c' pending) (hran : Ran c₁ c') : PendingIn c c₁ pending := by
  intro r hr
  rcases h r hr with hlt | hge | hbreak
  · exact .inl hlt
  · exact .inr (.inl (Nat.le_trans hran.words.length_le hge))
  · rcases hran.loops.innerBreaks_cases hbreak with hbreak | hge
    · exact .inr (.inr hbreak)
    · exact .inr (.inl hge)

/-- For the rest of the code. -/
theorem right (h : PendingIn c c' pending) (hle : c.words.length ≤ c₁.words.length) :
    PendingIn c₁ c' pending :=
  fun r hr => (h r hr).imp_left fun hlt => Nat.lt_of_lt_of_le hlt hle

theorem insert (h : PendingIn c c' pending) {r : ℕ} (hr : r < c.words.length) :
    PendingIn c c' (insert r pending) := by
  rintro r' (rfl | hr')
  · exact .inl hr
  · exact h r' hr'

/-- Immediates of the code itself that are no breaks are not pending. -/
theorem not_mem (h : PendingIn c c' pending) {r : ℕ} (hlow : c.words.length ≤ r)
    (hhigh : r < c'.words.length) (hbreak : r ∉ innerBreaks c'.loopScopes) : r ∉ pending := by
  intro hr
  rcases h r hr with hlt | hge | hmem
  · omega
  · omega
  · exact hbreak hmem

end PendingIn

theorem Agrees.restrict {cells : List Cell} {pending pending' : Set ℕ} {words : List Word}
    (h : Agrees cells pending' words) (hsub : ∀ r ∈ pending', r < words.length → r ∈ pending) :
    Agrees cells pending words :=
  fun i word hword => (h i word hword).imp_right fun h =>
    ⟨hsub i h.1 (List.getElem?_eq_some_iff.mp hword).1, h.2⟩

/-! ## Jumps -/

section Jumps

variable {c c' : GeneratorContext}

/-- One operation behind the others. -/
theorem Ready.emitOp (h : Ready c) {op : Op} (hsound : op.Sound)
    (hasm : ∀ ops, Assembles c.piece ops → Assembles c'.piece (ops ++ [op]))
    (hast : c'.ast = c.ast) (hblocks : c'.blocks = c.blocks)
    (hloops : c'.loopScopes = c.loopScopes) : Ran c c' ∧ c'.words = c.words ++ op.words := by
  obtain ⟨ops, hops, hsounds⟩ := h.coded
  have hwords : c'.words = c.words ++ op.words := by
    rw [GeneratorContext.words, GeneratorContext.words, hops.instructions,
      (hasm ops hops).instructions, ← wordsOf_eq, ← wordsOf_eq, wordsOf_append, wordsOf_singleton]
  have hkeeps : KeepsWords c.words c'.words := .of_append (hwords ▸ List.prefix_append _ _)
  refine ⟨⟨⟨⟨_, hasm ops hops, hsounds.concat hsound⟩, hast ▸ h.prim, fun b hb hresult => ?_,
    fun r hr => ?_⟩, hkeeps, .inl hloops, [], by rw [hblocks, List.append_nil], by simp⟩, hwords⟩
  · obtain ⟨r, hr, hret⟩ := h.results b (hblocks ▸ hb) hresult
    exact ⟨r, hr, hkeeps.ret hret⟩
  · exact Nat.lt_of_lt_of_le (h.breaks r (hloops ▸ hr)) hkeeps.length_le

/-- An immediate belongs to an operation. -/
theorem exists_op_of_imm {v : ℤ} : ∀ {ops : List Op} {r : ℕ},
    (Op.flatten ops)[r]? = some (.imm v) →
      ∃ pre inst post, ops = pre ++ ⟨inst, some v⟩ :: post ∧ r = (Op.flatten pre).length + 1 := by
  intro ops
  induction ops with
  | nil => exact fun {r} h => by simp at h
  | cons op ops ih =>
      intro r h
      obtain ⟨inst, _ | v'⟩ := op
      · cases r with
        | zero => simp [Op.cells] at h
        | succ r =>
            obtain ⟨pre, inst', post, rfl, rfl⟩ := ih (r := r) (by simpa [Op.cells] using h)
            exact ⟨⟨inst, none⟩ :: pre, inst', post, rfl, by simp [Op.cells]⟩
      · rcases r with _ | _ | r
        · simp [Op.cells] at h
        · obtain rfl : v' = v := by simpa [Op.cells] using h
          exact ⟨[], inst, ops, rfl, rfl⟩
        · obtain ⟨pre, inst', post, rfl, rfl⟩ := ih (r := r) (by simpa [Op.cells] using h)
          exact ⟨⟨inst, some v'⟩ :: pre, inst', post, rfl, by simp [Op.cells]⟩

/-- An immediate may get another value. -/
theorem Assembles.setImm {piece : BytecodePiece} {ops : List Op} {r : ℕ} {v : ℤ} (v' : ℤ)
    (h : Assembles piece ops) (hsound : SoundOps ops)
    (hr : piece.instructions[r]? = some (.imm v)) :
    ∃ ops', Assembles { piece with instructions := piece.instructions.set r (.imm v') } ops' ∧
      SoundOps ops' := by
  rw [h.instructions] at hr
  obtain ⟨pre, inst, post, rfl, rfl⟩ := exists_op_of_imm hr
  have hop := hsound ⟨inst, some v⟩ (by simp)
  refine ⟨pre ++ ⟨inst, some v'⟩ :: post, ⟨?_, ?_⟩, fun op hmem => ?_⟩
  · simp only [h.instructions, Op.flatten_append, Op.flatten_cons, Op.cells]
    rw [List.set_append_right _ _ (by omega)]
    simp
  · rw [h.positions, Op.positions_append, Op.positions_append]
    rfl
  · rcases List.mem_append.mp hmem with hmem | hmem
    · exact hsound op (by simp [hmem])
    · rcases List.mem_cons.mp hmem with rfl | hmem
      · exact ⟨hop.imm, hop.pushes⟩
      · exact hsound op (by simp [hmem])

/-- What `fix_jump_here` makes of the words. -/
def fixWords (words : List Word) (r : ℕ) : List Word := words.set r (.arg (words.length - r))

theorem words_fixJumpHere (c : GeneratorContext) (r : ℕ) :
    (c.withPiece (c.piece.fixJumpHere r)).words = fixWords c.words r := by
  unfold fixWords GeneratorContext.words
  change (c.piece.instructions.set r (.imm (c.piece.getPc - r))).map Cell.word = _
  rw [List.map_set, List.length_map]
  rfl

theorem Ready.fixJumpHere (h : Ready c) {r : ℕ} {v : ℤ} (hr : c.words[r]? = some (.arg v)) :
    Ran c (c.withPiece (c.piece.fixJumpHere r)) := by
  obtain ⟨ops, hasm, hsound⟩ := h.coded
  obtain ⟨ops', hasm', hsound'⟩ := hasm.setImm (c.piece.getPc - r) hsound (imm_of_word hr)
  have hwords : KeepsWords c.words (c.withPiece (c.piece.fixJumpHere r)).words := by
    rw [words_fixJumpHere]
    exact .set _ hr
  refine ⟨⟨⟨ops', hasm', hsound'⟩, h.prim, fun b hb hresult => ?_, fun r hr => ?_⟩, hwords,
    .inl rfl, [], (List.append_nil _).symm, by simp⟩
  · obtain ⟨k, hk, hret⟩ := h.results b hb hresult
    exact ⟨k, hk, hwords.ret hret⟩
  · exact Nat.lt_of_lt_of_le (h.breaks r hr) hwords.length_le

end Jumps

end TinCompiler
