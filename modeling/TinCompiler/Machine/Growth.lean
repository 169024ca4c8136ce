import TinCompiler.Library.ControlFlow
import TinCompiler.Machine.StackEffect
import Mathlib.Data.List.DropRight

/-!
# How the code grows

An emit function adds an operation behind the others, and `emit_pop` may take away a push.
Where the beginning of a block of code is a jump target, it matters that nothing in front of
it is taken away.  For the control flow only the kind of a cell is of interest (`Word`), and
three relations between the code before and the code after a computation are enough:

* `KeepsSolid`: all but the pushes at the end is still there;
* `Appends`: the words are still there, with words of straight code behind them;
* `Settles`: as `Appends`, and whatever is emitted next leaves it so.

`Grows` has all three of them.
-/

namespace TinCompiler

/-- What the control flow depends on in a cell. -/
inductive Word where
  | single
  | double
  | jump
  | branch
  | ret
  | arg (value : ℤ)
deriving DecidableEq, Repr

def Instruction.word : Instruction → Word
  | .jmp => .jump
  | .jz _ => .branch
  | .ret => .ret
  | inst => if inst.hasImmediate then .double else .single

def Cell.word : Cell → Word
  | .inst instruction => instruction.word
  | .imm value => .arg value

/-- The words of instructions behind each other, none of which jumps. -/
inductive StraightWords : List Word → Prop where
  | nil : StraightWords []
  | single {words : List Word} : StraightWords words → StraightWords (.single :: words)
  | double {words : List Word} (value : ℤ) : StraightWords words →
      StraightWords (.double :: .arg value :: words)

theorem StraightWords.append {words words' : List Word} (h : StraightWords words)
    (h' : StraightWords words') : StraightWords (words ++ words') := by
  induction h with
  | nil => exact h'
  | single _ ih => exact .single ih
  | double value _ ih => exact .double value ih

namespace Op

def isPush (op : Op) : Bool :=
  match op.inst with
  | .push _ => true
  | _ => false

/-- The operation has the immediate that its instruction reads.  Nothing pushes `d`. -/
structure Sound (op : Op) : Prop where
  imm : op.inst.hasImmediate = op.imm.isSome
  pushes : op.inst ≠ .push .d

def words (op : Op) : List Word := op.cells.map Cell.word

theorem words_single {op : Op} (hplain : op.Plain) (himm : op.imm = none) :
    op.words = [.single] := by
  obtain ⟨inst, imm⟩ := op
  obtain rfl : imm = none := himm
  have hfalse : inst.hasImmediate = false := hplain.imm
  cases inst <;> try first | rfl | cases hfalse
  rcases hplain.sequential with h | h
  · cases h
  · exact h.elim

theorem words_double {op : Op} {value : ℤ} (hplain : op.Plain) (himm : op.imm = some value) :
    op.words = [.double, .arg value] := by
  obtain ⟨inst, imm⟩ := op
  obtain rfl : imm = some value := himm
  have htrue : inst.hasImmediate = true := hplain.imm
  cases inst <;> try first | rfl | cases htrue
  all_goals
    rcases hplain.sequential with h | h
    · cases h
    · exact h.elim

theorem Plain.straight {op : Op} (hplain : op.Plain) : StraightWords op.words := by
  cases himm : op.imm with
  | none => exact words_single hplain himm ▸ .single .nil
  | some value => exact words_double hplain himm ▸ .double value .nil

theorem Sound.plain_of_isPush {op : Op} (hsound : op.Sound) (hpush : op.isPush) : op.Plain := by
  obtain ⟨inst, imm⟩ := op
  cases inst with
  | push reg => exact ⟨hsound.imm, .inr trivial, trivial⟩
  | _ => cases hpush

end Op

/-- The words of a sequence of operations. -/
def wordsOf (ops : List Op) : List Word := ops.flatMap Op.words

@[simp] theorem wordsOf_append (ops ops' : List Op) :
    wordsOf (ops ++ ops') = wordsOf ops ++ wordsOf ops' := List.flatMap_append

@[simp] theorem wordsOf_singleton (op : Op) : wordsOf [op] = op.words := by simp [wordsOf]

theorem wordsOf_eq (ops : List Op) : wordsOf ops = (Op.flatten ops).map Cell.word := by
  induction ops with
  | nil => rfl
  | cons op ops ih =>
      rw [Op.flatten_cons, List.map_append, ← ih]
      rfl

theorem straight_wordsOf {ops : List Op} (hplain : ∀ op ∈ ops, op.Plain) :
    StraightWords (wordsOf ops) := by
  induction ops with
  | nil => exact .nil
  | cons op ops ih =>
      exact (hplain op (by simp)).straight.append (ih fun op hmem => hplain op (by simp [hmem]))

def SoundOps (ops : List Op) : Prop := ∀ op ∈ ops, op.Sound

theorem SoundOps.concat {ops : List Op} {op : Op} (h : SoundOps ops) (hop : op.Sound) :
    SoundOps (ops ++ [op]) := by
  intro op' hmem
  rcases List.mem_append.mp hmem with hmem | hmem
  · exact h op' hmem
  · exact List.mem_singleton.mp hmem ▸ hop

/-! ## What cannot be taken away -/

/-- The operations without the pushes at the end. -/
def solid (ops : List Op) : List Op := ops.rdropWhile Op.isPush

section Solid

variable {ops ops' : List Op} {op : Op}

theorem solid_concat_of_push (hpush : op.isPush) : solid (ops ++ [op]) = solid ops :=
  List.rdropWhile_concat_pos _ _ _ hpush

theorem solid_concat_of_not (hpush : ¬ op.isPush) : solid (ops ++ [op]) = ops ++ [op] :=
  List.rdropWhile_concat_neg _ _ _ hpush

@[simp] theorem solid_solid (ops : List Op) : solid (solid ops) = solid ops :=
  List.rdropWhile_idempotent _ _

/-- Behind the solid part the operations are pushes. -/
theorem exists_solid_append (ops : List Op) :
    ∃ pushes, ops = solid ops ++ pushes ∧ ∀ op ∈ pushes, op.isPush := by
  induction ops using List.reverseRecOn with
  | nil => exact ⟨[], rfl, by simp⟩
  | append_singleton ops op ih =>
      by_cases hpush : op.isPush
      · obtain ⟨pushes, heq, hpushes⟩ := ih
        refine ⟨pushes ++ [op], ?_, fun op' hmem => ?_⟩
        · rw [solid_concat_of_push hpush, ← List.append_assoc, ← heq]
        · rcases List.mem_append.mp hmem with hmem | hmem
          · exact hpushes op' hmem
          · exact List.mem_singleton.mp hmem ▸ hpush
      · exact ⟨[], by simp [solid_concat_of_not hpush], by simp⟩

theorem solid_append (ops ops' : List Op) :
    solid (solid ops ++ ops') = solid ops ++ solid ops' := by
  induction ops' using List.reverseRecOn with
  | nil =>
      rw [List.append_nil, solid_solid]
      exact (List.append_nil _).symm
  | append_singleton ops' op ih =>
      rw [← List.append_assoc]
      by_cases hpush : op.isPush
      · rw [solid_concat_of_push hpush, solid_concat_of_push hpush, ih]
      · rw [solid_concat_of_not hpush, solid_concat_of_not hpush, List.append_assoc]

theorem mem_of_mem_solid (h : op ∈ solid ops) : op ∈ ops :=
  (List.rdropWhile_prefix _ _).subset h

end Solid

/-! ## The relations -/

/-- All but the pushes at the end is still there, and what is new is plain. -/
def KeepsSolid (ops ops' : List Op) : Prop := ∃ new, ops' = solid ops ++ new ∧ ∀ op ∈ new, op.Plain

/-- The words are still there, with words of straight code behind them. -/
def Appends (ops ops' : List Op) : Prop :=
  ∃ new, StraightWords new ∧ wordsOf ops' = wordsOf ops ++ new

/-- As `Appends`, for the part that cannot be taken away. -/
def Settles (ops ops' : List Op) : Prop := Appends ops (solid ops')

section Relations

variable {ops ops' ops'' : List Op} {op : Op}

theorem KeepsSolid.refl (h : SoundOps ops) : KeepsSolid ops ops := by
  obtain ⟨pushes, heq, hpushes⟩ := exists_solid_append ops
  refine ⟨pushes, heq, fun op hmem => (h op ?_).plain_of_isPush (hpushes op hmem)⟩
  rw [heq]
  exact List.mem_append_right _ hmem

theorem KeepsSolid.trans (h : KeepsSolid ops ops') (h' : KeepsSolid ops' ops'') : KeepsSolid ops ops'' := by
  obtain ⟨new, rfl, hnew⟩ := h
  obtain ⟨new', rfl, hnew'⟩ := h'
  refine ⟨solid new ++ new', by rw [solid_append, List.append_assoc], fun op hmem => ?_⟩
  rcases List.mem_append.mp hmem with hmem | hmem
  · exact hnew op (mem_of_mem_solid hmem)
  · exact hnew' op hmem

theorem KeepsSolid.concat (h : SoundOps ops) (hplain : op.Plain) : KeepsSolid ops (ops ++ [op]) := by
  obtain ⟨pushes, heq, hpushes⟩ := KeepsSolid.refl h
  refine ⟨pushes ++ [op], by rw [← List.append_assoc, ← heq], fun op' hmem => ?_⟩
  rcases List.mem_append.mp hmem with hmem | hmem
  · exact hpushes op' hmem
  · exact List.mem_singleton.mp hmem ▸ hplain

theorem KeepsSolid.dropLast_push (h : SoundOps (ops ++ [op])) (hpush : op.isPush) :
    KeepsSolid (ops ++ [op]) ops := by
  obtain ⟨pushes, heq, hpushes⟩ := KeepsSolid.refl fun op hmem => h op (List.mem_append_left _ hmem)
  exact ⟨pushes, by rw [solid_concat_of_push hpush, ← heq], hpushes⟩

/-- What `emit_pop` does: a push is taken away, or a pop added. -/
theorem popOp_cases (reg : Register) (ops : List Op) :
    (∃ init op, ops = init ++ [op] ∧ op.inst = .push reg ∧ Op.popOp reg ops = init) ∨
      Op.popOp reg ops = ops ++ [⟨.pop reg, none⟩] := by
  unfold Op.popOp
  split
  · next hlast =>
      obtain ⟨op, hop, hinst⟩ := Option.map_eq_some_iff.mp hlast
      obtain ⟨init, rfl⟩ := List.getLast?_eq_some_iff.mp hop
      exact .inl ⟨init, op, rfl, hinst, List.dropLast_concat⟩
  · exact .inr rfl

theorem SoundOps.popOp (h : SoundOps ops) (reg : Register) : SoundOps (Op.popOp reg ops) := by
  obtain ⟨init, op, rfl, -, heq⟩ | heq := popOp_cases reg ops
  · rw [heq]
    exact fun op hmem => h op (List.mem_append_left _ hmem)
  · rw [heq]
    exact h.concat ⟨rfl, by simp⟩

theorem plain_pop {reg : Register} (hsp : reg ≠ .sp) (hpc : reg ≠ .pc) :
    (⟨.pop reg, none⟩ : Op).Plain := ⟨rfl, .inr hpc, hsp⟩

theorem plain_push (reg : Register) : (⟨.push reg, none⟩ : Op).Plain :=
  ⟨rfl, .inr trivial, trivial⟩

theorem KeepsSolid.popOp {reg : Register} (h : SoundOps ops) (hsp : reg ≠ .sp) (hpc : reg ≠ .pc) :
    KeepsSolid ops (Op.popOp reg ops) := by
  obtain ⟨init, op, rfl, hinst, heq⟩ | heq := popOp_cases reg ops
  · rw [heq]
    exact .dropLast_push h (by simp [Op.isPush, hinst])
  · rw [heq]
    exact .concat h (plain_pop hsp hpc)

theorem Appends.refl (ops : List Op) : Appends ops ops := ⟨[], .nil, by simp⟩

theorem Appends.trans (h : Appends ops ops') (h' : Appends ops' ops'') : Appends ops ops'' := by
  obtain ⟨new, hnew, heq⟩ := h
  obtain ⟨new', hnew', heq'⟩ := h'
  exact ⟨new ++ new', hnew.append hnew', by rw [heq', heq, List.append_assoc]⟩

theorem Appends.append (ops : List Op) {new : List Op} (hplain : ∀ op ∈ new, op.Plain) :
    Appends ops (ops ++ new) :=
  ⟨wordsOf new, straight_wordsOf hplain, wordsOf_append _ _⟩

theorem Settles.appends (h : Settles ops ops') (hsound : SoundOps ops') : Appends ops ops' := by
  obtain ⟨pushes, heq, hpushes⟩ := KeepsSolid.refl hsound
  refine Appends.trans h ?_
  nth_rewrite 2 [heq]
  exact .append _ hpushes

theorem Settles.keep (h : Settles ops ops') (h' : KeepsSolid ops' ops'') : Settles ops ops'' := by
  obtain ⟨new, rfl, hnew⟩ := h'
  unfold Settles
  rw [solid_append]
  exact Appends.trans h (.append _ fun op hmem => hnew op (mem_of_mem_solid hmem))

theorem Settles.concat (ops : List Op) (hplain : op.Plain) (hpush : ¬ op.isPush) :
    Settles ops (ops ++ [op]) := by
  unfold Settles
  rw [solid_concat_of_not hpush]
  exact .append _ fun _ hmem => List.mem_singleton.mp hmem ▸ hplain

end Relations

/-- All three; the last one where `firm` holds. -/
structure Grows (firm : Prop) (ops ops' : List Op) : Prop where
  keeps : KeepsSolid ops ops'
  appends : Appends ops ops'
  settles : firm → Settles ops ops'

namespace Grows

variable {ops ops' ops'' : List Op} {op : Op} {firm firm' : Prop}

theorem refl (h : SoundOps ops) : Grows False ops ops := ⟨.refl h, .refl ops, False.elim⟩

theorem mono (h : Grows firm ops ops') (hfirm : firm' → firm) : Grows firm' ops ops' :=
  ⟨h.keeps, h.appends, fun hf => h.settles (hfirm hf)⟩

theorem trans (h : Grows firm ops ops') (h' : Grows firm' ops' ops'') :
    Grows (firm ∨ firm') ops ops'' where
  keeps := h.keeps.trans h'.keeps
  appends := h.appends.trans h'.appends
  settles := by
    rintro (hf | hf)
    · exact (h.settles hf).keep h'.keeps
    · exact h.appends.trans (h'.settles hf)

/-- What has settled is not touched by what comes behind it. -/
theorem keep (h : Grows firm ops ops') (hf : firm) (h' : KeepsSolid ops' ops'')
    (hsound : SoundOps ops'') : Grows True ops ops'' :=
  have hsettles := (h.settles hf).keep h'
  ⟨h.keeps.trans h', hsettles.appends hsound, fun _ => hsettles⟩

theorem concat (h : SoundOps ops) (hplain : op.Plain) (hpush : ¬ op.isPush) :
    Grows True ops (ops ++ [op]) where
  keeps := .concat h hplain
  appends := .append _ fun _ hmem => List.mem_singleton.mp hmem ▸ hplain
  settles := fun _ => .concat ops hplain hpush

theorem concat_push (h : SoundOps ops) (hplain : op.Plain) : Grows False ops (ops ++ [op]) :=
  ⟨.concat h hplain, .append _ fun _ hmem => List.mem_singleton.mp hmem ▸ hplain, False.elim⟩

end Grows

/-! ## The emit functions -/

/-- Whatever operations `piece` consists of, `piece'` has related ones. -/
def Emits (R : List Op → List Op → Prop) (piece piece' : BytecodePiece) : Prop :=
  ∀ ops, Assembles piece ops → SoundOps ops →
    ∃ ops', Assembles piece' ops' ∧ SoundOps ops' ∧ R ops ops'

namespace Emits

variable {R R' R'' : List Op → List Op → Prop} {piece piece' piece'' : BytecodePiece}
  {firm firm' : Prop}

theorem imp (h : Emits R piece piece') (hR : ∀ ops ops', R ops ops' → R' ops ops') :
    Emits R' piece piece' := by
  intro ops hasm hsound
  obtain ⟨ops', hasm', hsound', hr⟩ := h ops hasm hsound
  exact ⟨ops', hasm', hsound', hR _ _ hr⟩

theorem keeps (h : Emits (Grows firm) piece piece') : Emits KeepsSolid piece piece' :=
  h.imp fun _ _ h => h.keeps

theorem mono (h : Emits (Grows firm) piece piece') (hfirm : firm' → firm) :
    Emits (Grows firm') piece piece' :=
  h.imp fun _ _ h => h.mono hfirm

theorem refl (piece : BytecodePiece) : Emits (Grows False) piece piece :=
  fun ops hasm hsound => ⟨ops, hasm, hsound, .refl hsound⟩

theorem trans (h : Emits (Grows firm) piece piece') (h' : Emits (Grows firm') piece' piece'') :
    Emits (Grows (firm ∨ firm')) piece piece'' := by
  intro ops hasm hsound
  obtain ⟨ops', hasm', hsound', hr⟩ := h ops hasm hsound
  obtain ⟨ops'', hasm'', hsound'', hr'⟩ := h' ops' hasm' hsound'
  exact ⟨ops'', hasm'', hsound'', hr.trans hr'⟩

theorem transKeeps (h : Emits KeepsSolid piece piece') (h' : Emits KeepsSolid piece' piece'') :
    Emits KeepsSolid piece piece'' := by
  intro ops hasm hsound
  obtain ⟨ops', hasm', hsound', hr⟩ := h ops hasm hsound
  obtain ⟨ops'', hasm'', hsound'', hr'⟩ := h' ops' hasm' hsound'
  exact ⟨ops'', hasm'', hsound'', hr.trans hr'⟩

theorem keep (h : Emits (Grows firm) piece piece') (hf : firm) (h' : Emits KeepsSolid piece' piece'') :
    Emits (Grows True) piece piece'' := by
  intro ops hasm hsound
  obtain ⟨ops', hasm', hsound', hr⟩ := h ops hasm hsound
  obtain ⟨ops'', hasm'', hsound'', hr'⟩ := h' ops' hasm' hsound'
  exact ⟨ops'', hasm'', hsound'', hr.keep hf hr' hsound''⟩

theorem of_assembles (op : Op) (hplain : op.Plain) (hpush : ¬ op.isPush)
    (h : ∀ ops, Assembles piece ops → Assembles piece' (ops ++ [op])) :
    Emits (Grows True) piece piece' := by
  intro ops hasm hsound
  have hop : op.Sound := ⟨hplain.imm, fun heq => hpush (by simp [Op.isPush, heq])⟩
  exact ⟨ops ++ [op], h ops hasm, hsound.concat hop, .concat hsound hplain hpush⟩

theorem emitPush (piece : BytecodePiece) {reg : Register} (hreg : reg ≠ .d) :
    Emits (Grows False) piece (piece.emitPush reg) := by
  intro ops hasm hsound
  have hop : (⟨.push reg, none⟩ : Op).Sound := ⟨rfl, by simpa using hreg⟩
  exact ⟨_, hasm.emitPush reg, hsound.concat hop,
    .concat_push hsound ⟨rfl, .inr trivial, trivial⟩⟩

theorem emitPop (piece : BytecodePiece) {reg : Register} (hsp : reg ≠ .sp) (hpc : reg ≠ .pc) :
    Emits KeepsSolid piece (piece.emitPop reg) :=
  fun _ hasm hsound => ⟨_, hasm.emitPop reg, hsound.popOp reg, .popOp hsound hsp hpc⟩

/-- Nothing is taken away for `d`. -/
theorem emitPop_d (piece : BytecodePiece) : Emits (Grows True) piece (piece.emitPop .d) := by
  intro ops hasm hsound
  have hplain : (⟨.pop .d, none⟩ : Op).Plain :=
    ⟨rfl, .inr (show Register.d ≠ .pc by decide), show Register.d ≠ .sp by decide⟩
  have hne : Op.popOp .d ops = ops ++ [⟨.pop .d, none⟩] := by
    refine if_neg fun hlast => ?_
    obtain ⟨op, hop, hinst⟩ := Option.map_eq_some_iff.mp hlast
    exact (hsound op (List.mem_of_getLast? hop)).pushes hinst
  refine ⟨_, hne ▸ hasm.emitPop .d, hsound.concat ⟨rfl, by simp⟩, .concat hsound hplain ?_⟩
  simp [Op.isPush]

theorem emitLi (piece : BytecodePiece) {reg : Register} (imm : ℤ) (hsp : reg ≠ .sp)
    (hpc : reg ≠ .pc) : Emits (Grows True) piece (piece.emitLi reg imm) :=
  of_assembles ⟨.li reg, some imm⟩ ⟨rfl, .inr hpc, hsp⟩ (by simp [Op.isPush])
    fun _ h => h.emitLi reg imm

theorem emitIncr (piece : BytecodePiece) {reg : Register} (imm : ℤ) (hpc : reg ≠ .pc) :
    Emits (Grows True) piece (piece.emitIncr reg imm) :=
  of_assembles (Op.incr reg imm) ⟨rfl, .inr hpc, trivial⟩ (by simp [Op.isPush, Op.incr])
    fun _ h => h.emitIncr reg imm

/-- An instruction without immediate. -/
theorem emit (piece : BytecodePiece) {inst : Instruction} (himm : inst.hasImmediate = false)
    (hseq : inst.Sequential) (hspares : inst.SparesSp) (hpush : ∀ reg, inst ≠ .push reg) :
    Emits (Grows True) piece (piece.emit inst) :=
  of_assembles ⟨inst, none⟩ ⟨himm, .inr hseq, hspares⟩
    (by unfold Op.isPush; split <;> simp_all) fun _ h => h.emit inst

theorem emitMovRR (piece : BytecodePiece) {toReg : Register} (fromReg : Register)
    (hsp : toReg ≠ .sp) (hpc : toReg ≠ .pc) :
    Emits (Grows True) piece (piece.emitMovRR toReg fromReg) :=
  emit piece rfl hpc hsp (by simp)

theorem emitMovRM (piece : BytecodePiece) {toReg : Register} (fromReg : Register) (size : ℕ)
    (hsp : toReg ≠ .sp) (hpc : toReg ≠ .pc) :
    Emits (Grows True) piece (piece.emitMovRM toReg fromReg size) :=
  emit piece rfl hpc hsp (by simp)

theorem emitMovMR (piece : BytecodePiece) (toReg fromReg : Register) (size : ℕ) :
    Emits (Grows True) piece (piece.emitMovMR toReg fromReg size) :=
  emit piece rfl trivial trivial (by simp)

theorem emitCast (piece : BytecodePiece) {reg : Register} (castType : CastType) (hsp : reg ≠ .sp)
    (hpc : reg ≠ .pc) : Emits (Grows True) piece (piece.emitCast reg castType) :=
  emit piece rfl hpc hsp (by simp)

theorem emitArithmetic (piece : BytecodePiece) (op : ArithmeticOp) {toFromReg : Register}
    (fromReg : Register) (isFloat : Bool) (hsp : toFromReg ≠ .sp) (hpc : toFromReg ≠ .pc) :
    Emits (Grows True) piece (piece.emitArithmetic op toFromReg fromReg isFloat) :=
  emit piece rfl hpc hsp (by simp)

theorem emitMemzero (piece : BytecodePiece) (reg regSize : Register) :
    Emits (Grows True) piece (piece.emitMemzero reg regSize) :=
  emit piece rfl trivial trivial (by simp)

theorem emitMovMRDisp (piece : BytecodePiece) (toReg fromReg : Register) (size : ℕ) (offset : ℤ) :
    Emits (Grows True) piece (piece.emitMovMRDisp toReg fromReg size offset) := by
  refine of_assembles (Op.movMR toReg fromReg size offset) ?_ ?_
    fun _ h => h.emitMovMRDisp toReg fromReg size offset
  · unfold Op.movMR
    split <;> exact ⟨rfl, .inr trivial, trivial⟩
  · unfold Op.movMR
    split <;> simp [Op.isPush]

theorem emitMovRMDisp (piece : BytecodePiece) {toReg : Register} (fromReg : Register) (size : ℕ)
    (offset : ℤ) (hsp : toReg ≠ .sp) (hpc : toReg ≠ .pc) :
    Emits (Grows True) piece (piece.emitMovRMDisp toReg fromReg size offset) := by
  refine of_assembles (Op.movRM toReg fromReg size offset) ?_ ?_
    fun _ h => h.emitMovRMDisp toReg fromReg size offset
  · unfold Op.movRM
    split <;> exact ⟨rfl, .inr hpc, hsp⟩
  · unfold Op.movRM
    split <;> simp [Op.isPush]

theorem emitDataptr (piece : BytecodePiece) {reg : Register} (offset : ℤ) (hsp : reg ≠ .sp)
    (hpc : reg ≠ .pc) : Emits (Grows True) piece (piece.emitDataptr reg offset) :=
  of_assembles ⟨.dataptr reg, some offset⟩ ⟨rfl, .inr hpc, hsp⟩ (by simp [Op.isPush])
    fun _ h => h.emitDataptr reg offset

theorem emitCall (piece : BytecodePiece) (function : ℕ) :
    Emits (Grows True) piece (piece.emitCall.2.addRelocation function piece.emitCall.1) :=
  of_assembles ⟨.call, some 0⟩ ⟨rfl, .inl rfl, trivial⟩ (by simp [Op.isPush])
    fun _ h => h.emitCall.addRelocation function _

/-- A value in `a` is replaced: if its push is taken away, `inst` takes its place. -/
theorem popEmitPush (piece : BytecodePiece) {inst : Instruction}
    (himm : inst.hasImmediate = false) (hseq : inst.Sequential) (hspares : inst.SparesSp)
    (hpush : ∀ reg, inst ≠ .push reg) :
    Emits (Grows False) piece (((piece.emitPop .a).emit inst).emitPush .a) := by
  intro ops hasm hsound
  have hplain : (⟨inst, none⟩ : Op).Plain := ⟨himm, .inr hseq, hspares⟩
  have hsound₁ : SoundOps (Op.popOp .a ops) := hsound.popOp .a
  have hsound₂ : SoundOps (Op.popOp .a ops ++ [⟨inst, none⟩]) := hsound₁.concat ⟨himm, hpush .d⟩
  refine ⟨_, ((hasm.emitPop .a).emit inst).emitPush .a, hsound₂.concat ⟨rfl, by simp⟩,
    ?_, ?_, False.elim⟩
  · exact (KeepsSolid.popOp hsound (by decide) (by decide)).trans
      ((KeepsSolid.concat hsound₁ hplain).trans (.concat hsound₂ (plain_push .a)))
  · obtain ⟨init, op, rfl, hinst, heq⟩ | heq := popOp_cases .a ops
    · have hop : op.Plain := (hsound op (by simp)).plain_of_isPush (by simp [Op.isPush, hinst])
      have himm' : op.imm = none := by simpa [hinst, Instruction.hasImmediate] using hop.imm
      refine ⟨[.single], .single .nil, ?_⟩
      rw [heq, wordsOf_append, wordsOf_append, wordsOf_append, wordsOf_singleton,
        wordsOf_singleton, wordsOf_singleton, Op.words_single hop himm',
        Op.words_single hplain rfl, Op.words_single (plain_push .a) rfl]
    · rw [heq, List.append_assoc, List.append_assoc]
      refine .append _ fun op hmem => ?_
      simp only [List.cons_append, List.nil_append, List.mem_cons, List.not_mem_nil, or_false]
        at hmem
      rcases hmem with rfl | rfl | rfl
      · exact plain_pop (by decide) (by decide)
      · exact hplain
      · exact plain_push .a

theorem foldlKeeps {α : Type} (f : BytecodePiece → α → BytecodePiece)
    (hf : ∀ piece a, Emits KeepsSolid piece (f piece a)) (l : List α) :
    ∀ piece, Emits KeepsSolid piece (l.foldl f piece) := by
  induction l with
  | nil => exact fun piece => (refl piece).keeps
  | cons a l ih => exact fun piece => (hf piece a).transKeeps (ih _)

end Emits

end TinCompiler
