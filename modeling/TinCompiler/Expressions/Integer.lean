import TinCompiler.Generator.Expression
import TinCompiler.VirtualMachine

/-!
# Integer expressions

The part of the language that is built from `int` literals, `int` variables, the binary
operators and `!`, with its 32-bit semantics (`value`).  The machine computes on 64 bits,
and it reads a variable without extending its sign; `wide` is the semantics that results.
The two are related only as long as the operators that look at more than the low bits see
the same in both (`Agree`).
-/

namespace TinCompiler

/-- `1` or `0`. -/
def truth {w : ℕ} (b : Bool) : BitVec w := if b then 1 else 0

/-- Two's-complement arithmetic with truncated division, signed comparisons and logical
operators on integers of `w` bits. -/
def BinaryKind.apply {w : ℕ} : BinaryKind → BitVec w → BitVec w → BitVec w
  | .add, x, y => x + y
  | .sub, x, y => x - y
  | .mul, x, y => x * y
  | .div, x, y => x.sdiv y
  | .and, x, y => truth (x ≠ 0 && y ≠ 0)
  | .or, x, y => truth (x ≠ 0 || y ≠ 0)
  | .equal, x, y => truth (x = y)
  | .notEqual, x, y => truth (x ≠ y)
  | .less, x, y => truth (x.slt y)
  | .greater, x, y => truth (y.slt x)
  | .lessEqual, x, y => truth (x.sle y)
  | .greaterEqual, x, y => truth (y.sle x)

/-- The low bytes of the result depend on all bytes of the operands. -/
def BinaryKind.ReadsAll : BinaryKind → Prop
  | .add | .sub | .mul => False
  | _ => True

/-- The type of the result, from that of the left operand. -/
def BinaryKind.outType (kind : BinaryKind) (type : TypeId) : TypeId :=
  if kind.IsArithmetic then type else .bool

/-- An expression built from integers; parentheses leave no node. -/
inductive IntExpr where
  | literal (value : BitVec 32) (location : SourceLocation)
  | identifier (name : String) (location : SourceLocation)
  | binary (kind : BinaryKind) (left right : IntExpr) (location : SourceLocation)
  | not (left : IntExpr) (location : SourceLocation)

namespace IntExpr

def toAST : IntExpr → ASTExpression
  | literal value location => .literalInt value location
  | identifier name location => .identifier name location
  | binary kind left right location => .binary kind left.toAST right.toAST location
  | not left location => .not left.toAST location

/-- The type that `generateExpression` returns, if the operands have suitable types. -/
def typeOf : IntExpr → Option TypeId
  | literal .. => some .int
  | identifier .. => some .int
  | binary kind left right _ =>
      left.typeOf.bind fun ltype => right.typeOf.bind fun rtype =>
        (binaryTypes kind ltype rtype).map Prod.fst
  | not left _ => left.typeOf

def names : IntExpr → List String
  | literal .. => []
  | identifier name _ => [name]
  | binary _ left right _ => left.names ++ right.names
  | not left _ => left.names

/-- The expression and the ones it is built from. -/
def subexpressions : IntExpr → List IntExpr
  | e@(literal ..) => [e]
  | e@(identifier ..) => [e]
  | e@(binary _ left right _) => e :: (left.subexpressions ++ right.subexpressions)
  | e@(not left _) => e :: left.subexpressions

/-- The number of slots that the code needs below the stack pointer. -/
def need : IntExpr → ℕ
  | literal .. => 1
  | identifier .. => 1
  | binary _ left right _ => max left.need (right.need + 1)
  | not left _ => left.need

/-- The semantics on integers of `w` bits. -/
def eval {w : ℕ} (literals : BitVec 32 → BitVec w) (locals : String → BitVec w) :
    IntExpr → BitVec w
  | literal value _ => literals value
  | identifier name _ => locals name
  | binary kind left right _ =>
      kind.apply (left.eval literals locals) (right.eval literals locals)
  | not left _ => truth (left.eval literals locals = 0)

/-- The 32-bit semantics. -/
def value (env : String → BitVec 32) (e : IntExpr) : BitVec 32 := e.eval id env

/-- The semantics on 64 bits with signed literals and unsigned variables. -/
def wide (env : String → BitVec 32) (e : IntExpr) : BitVec 64 :=
  e.eval (BitVec.signExtend 64) (fun name => (env name).setWidth 64)

/-- No division traps on 64 bits. -/
def NoTrap (env : String → BitVec 32) : IntExpr → Prop
  | literal .. => True
  | identifier .. => True
  | binary kind left right _ =>
      left.NoTrap env ∧ right.NoTrap env ∧
        (kind = .div → ¬ VirtualMachine.divisionTraps (left.wide env) (right.wide env))
  | not left _ => left.NoTrap env

/-- The bytes of a value of this type. -/
def width (type : TypeId) : ℕ := if type = .bool then 1 else 4

/-- The low bytes of the two semantics are the same. -/
def SameLow (env : String → BitVec 32) (e : IntExpr) : Prop :=
  ∀ type, e.typeOf = some type →
    (e.wide env).setWidth (8 * width type) = (e.value env).setWidth (8 * width type)

/-- At every operator that reads more than the low bytes of its operands (`/`, the
comparisons, `&&`, `||` and `!`) the result is the same in both semantics, and no division
traps. -/
def Agree (env : String → BitVec 32) : IntExpr → Prop
  | literal .. => True
  | identifier .. => True
  | binary kind left right _ =>
      left.Agree env ∧ right.Agree env ∧
        (kind = .div → ¬ VirtualMachine.divisionTraps (left.wide env) (right.wide env)) ∧
        (kind.ReadsAll → ∀ type, left.typeOf = some type →
          (kind.apply (left.wide env) (right.wide env)).setWidth (8 * width (kind.outType type)) =
            (kind.apply (left.value env) (right.value env)).setWidth
              (8 * width (kind.outType type)))
  | not left _ => left.Agree env ∧ (left.wide env = 0 ↔ left.value env = 0)

/-! ## Types -/

theorem binaryTypes_of_int_or_bool {kind : BinaryKind} {ltype rtype type : TypeId} {isFloat : Bool}
    (hl : ltype = .int ∨ ltype = .bool) (hr : rtype = .int ∨ rtype = .bool)
    (h : binaryTypes kind ltype rtype = some (type, isFloat)) :
    isFloat = false ∧ type = kind.outType ltype ∧ (kind.IsArithmetic → rtype = ltype) ∧
      (kind.IsArithmetic = false → kind.IsLogical = false → ltype = .int) := by
  rcases hl with rfl | rfl <;> rcases hr with rfl | rfl <;> cases kind <;>
    simp_all [binaryTypes, BinaryKind.IsArithmetic, BinaryKind.IsLogical, BinaryKind.outType]

theorem typeOf_binary {kind : BinaryKind} {left right : IntExpr} {location : SourceLocation}
    {type : TypeId} (h : (binary kind left right location).typeOf = some type) :
    ∃ ltype rtype isFloat, left.typeOf = some ltype ∧ right.typeOf = some rtype ∧
      binaryTypes kind ltype rtype = some (type, isFloat) := by
  simp only [typeOf, Option.bind_eq_some_iff, Option.map_eq_some_iff] at h
  obtain ⟨ltype, hl, rtype, hr, ⟨outType, isFloat⟩, htypes, rfl⟩ := h
  exact ⟨ltype, rtype, isFloat, hl, hr, htypes⟩

theorem typeOf_int_or_bool {e : IntExpr} :
    ∀ {type}, e.typeOf = some type → type = .int ∨ type = .bool := by
  induction e with
  | literal | identifier => intro type h; exact .inl (Option.some.inj h).symm
  | binary kind left right location ihl ihr =>
      intro type h
      obtain ⟨ltype, rtype, isFloat, hl, hr, htypes⟩ := typeOf_binary h
      obtain ⟨-, rfl, -, -⟩ := binaryTypes_of_int_or_bool (ihl hl) (ihr hr) htypes
      unfold BinaryKind.outType
      split
      · exact ihl hl
      · exact .inr rfl
  | not left location ih => exact ih

theorem width_le (type : TypeId) : 8 * width type ≤ 32 := by
  unfold width
  split <;> decide

/-! ## The low bytes -/

variable {env : String → BitVec 32}

theorem setWidth_sub {w i : ℕ} (x y : BitVec w) (h : i ≤ w) :
    (x - y).setWidth i = x.setWidth i - y.setWidth i := by
  have hadd : (x - y + y).setWidth i = (x - y).setWidth i + y.setWidth i :=
    BitVec.setWidth_add _ _ h
  rw [BitVec.sub_add_cancel] at hadd
  rw [hadd, BitVec.add_sub_cancel]

/-- Addition, subtraction and multiplication only look at the low bytes. -/
theorem apply_setWidth {kind : BinaryKind} (hkind : ¬ kind.ReadsAll) {w w' i : ℕ} {x y : BitVec w}
    {x' y' : BitVec w'} (hw : i ≤ w) (hw' : i ≤ w') (hx : x.setWidth i = x'.setWidth i)
    (hy : y.setWidth i = y'.setWidth i) :
    (kind.apply x y).setWidth i = (kind.apply x' y').setWidth i := by
  cases kind with
  | add => simp only [BinaryKind.apply, BitVec.setWidth_add _ _ hw, BitVec.setWidth_add _ _ hw', hx, hy]
  | sub => simp only [BinaryKind.apply, setWidth_sub _ _ hw, setWidth_sub _ _ hw', hx, hy]
  | mul => simp only [BinaryKind.apply, BitVec.setWidth_mul _ _ hw, BitVec.setWidth_mul _ _ hw', hx, hy]
  | _ => exact (hkind trivial).elim

theorem setWidth_signExtend {w n i : ℕ} (x : BitVec w) (hn : i ≤ n) (hw : i ≤ w) :
    (x.signExtend n).setWidth i = x.setWidth i := by
  apply BitVec.eq_of_getLsbD_eq
  intro j hj
  have hjn : j < n := by omega
  have hjw : j < w := by omega
  rw [BitVec.getLsbD_setWidth, BitVec.getLsbD_setWidth, BitVec.getLsbD_signExtend]
  simp [hjn, hjw]

theorem truth_setWidth_inj {w w' i : ℕ} (hi : 0 < i) (hw : i ≤ w) (hw' : i ≤ w') {b b' : Bool} :
    (truth b : BitVec w).setWidth i = (truth b' : BitVec w').setWidth i ↔ b = b' := by
  have hlow : ∀ {w : ℕ} (b : Bool), i ≤ w → ((truth b : BitVec w).setWidth i).getLsbD 0 = b := by
    intro w b hw
    have hpos : 0 < w := by omega
    cases b <;> simp [truth, hi, hpos]
  refine ⟨fun h => ?_, ?_⟩
  · rw [← hlow b hw, ← hlow b' hw', h]
  · rintro rfl
    cases b
    · simp [truth]
    · have hone : ∀ {w : ℕ}, i ≤ w → ((1 : BitVec w).setWidth i) = 1 := by
        intro w hw
        have hpos : 0 < w := by omega
        apply BitVec.eq_of_getLsbD_eq
        intro j hj
        simp [hj, hpos]
      simp only [truth, if_true, hone hw, hone hw']

theorem sameLow_literal (value : BitVec 32) (location : SourceLocation) :
    SameLow env (literal value location) := by
  intro type _
  exact setWidth_signExtend _ (Nat.le_trans (width_le type) (by decide)) (width_le type)

theorem sameLow_identifier (name : String) (location : SourceLocation) :
    SameLow env (identifier name location) := by
  intro type _
  exact BitVec.setWidth_setWidth_of_le _ (Nat.le_trans (width_le type) (by decide))

theorem sameLow_not {left : IntExpr} {location : SourceLocation} {type : TypeId}
    (htype : left.typeOf = some type) :
    SameLow env (not left location) ↔ (left.wide env = 0 ↔ left.value env = 0) := by
  have hpos : 0 < 8 * width type := by unfold width; split <;> decide
  have hle := width_le type
  have hinj : (truth (left.wide env = 0) : BitVec 64).setWidth (8 * width type) =
      (truth (left.value env = 0) : BitVec 32).setWidth (8 * width type) ↔
      (left.wide env = 0 ↔ left.value env = 0) :=
    (truth_setWidth_inj hpos (Nat.le_trans hle (by decide)) hle).trans decide_eq_decide
  rw [← hinj]
  refine ⟨fun h => h type htype, fun h other hother => ?_⟩
  cases htype.symm.trans hother
  exact h

/-- The low bytes of an expression, given those of the operands. -/
theorem sameLow_binary {kind : BinaryKind} {left right : IntExpr} {location : SourceLocation}
    {ltype type : TypeId} (hltype : left.typeOf = some ltype)
    (htype : (binary kind left right location).typeOf = some type)
    (hl : SameLow env left) (hr : SameLow env right) :
    SameLow env (binary kind left right location) ↔
      (kind.ReadsAll → ∀ type, left.typeOf = some type →
        (kind.apply (left.wide env) (right.wide env)).setWidth (8 * width (kind.outType type)) =
          (kind.apply (left.value env) (right.value env)).setWidth
            (8 * width (kind.outType type))) := by
  obtain ⟨ltype', rtype, isFloat, hltype', hrtype, htypes⟩ := typeOf_binary htype
  cases hltype.symm.trans hltype'
  obtain ⟨-, rfl, hsame, -⟩ := binaryTypes_of_int_or_bool (typeOf_int_or_bool hltype)
    (typeOf_int_or_bool hrtype) htypes
  refine ⟨fun h _ type hother => ?_, fun h other hother => ?_⟩
  · cases hltype.symm.trans hother
    exact h _ htype
  · cases htype.symm.trans hother
    by_cases hkind : kind.ReadsAll
    · exact h hkind ltype hltype
    · have harith : kind.IsArithmetic := by
        cases kind <;> first | rfl | exact (hkind trivial).elim
      obtain rfl := hsame harith
      have hout : kind.outType rtype = rtype := by simp [BinaryKind.outType, harith]
      rw [hout]
      have hle := width_le rtype
      exact apply_setWidth hkind (Nat.le_trans hle (by decide)) hle (hl _ hltype) (hr _ hrtype)

theorem mem_subexpressions_self (e : IntExpr) : e ∈ e.subexpressions := by
  cases e <;> simp [subexpressions]

/-- The condition on the operators says that all subexpressions have the right low bytes. -/
theorem agree_iff {e : IntExpr} : ∀ {type}, e.typeOf = some type →
    ((∀ e' ∈ e.subexpressions, e'.NoTrap env ∧ SameLow env e') ↔ e.Agree env) := by
  induction e with
  | literal value location =>
      intro type _
      simpa [subexpressions, Agree, NoTrap] using sameLow_literal value location
  | identifier name location =>
      intro type _
      simpa [subexpressions, Agree, NoTrap] using sameLow_identifier name location
  | not left location ih =>
      intro type (htype : left.typeOf = some type)
      simp only [subexpressions, List.mem_cons, forall_eq_or_imp, ih htype, sameLow_not htype, Agree,
        NoTrap]
      refine ⟨fun ⟨⟨_, hsame⟩, hleft⟩ => ⟨hleft, hsame⟩, fun ⟨hleft, hsame⟩ => ⟨⟨?_, hsame⟩, hleft⟩⟩
      exact ((ih htype).mpr hleft left left.mem_subexpressions_self).1
  | binary kind left right location ihl ihr =>
      intro type htype
      obtain ⟨ltype, rtype, isFloat, hltype, hrtype, -⟩ := typeOf_binary htype
      have hself : ∀ {e' : IntExpr}, (∀ e'' ∈ e'.subexpressions, e''.NoTrap env ∧ SameLow env e'') →
          e'.NoTrap env ∧ SameLow env e' := fun h => h _ (mem_subexpressions_self _)
      constructor
      · intro hall
        have hallLeft := fun e' (hmem : e' ∈ left.subexpressions) =>
          hall e' (by simp [subexpressions, hmem])
        have hallRight := fun e' (hmem : e' ∈ right.subexpressions) =>
          hall e' (by simp [subexpressions, hmem])
        obtain ⟨⟨-, -, htrap⟩, hsame⟩ := hself hall
        exact ⟨(ihl hltype).mp hallLeft, (ihr hrtype).mp hallRight, htrap,
          (sameLow_binary hltype htype (hself hallLeft).2 (hself hallRight).2).mp hsame⟩
      · rintro ⟨hl, hr, htrap, hnode⟩ e' hmem
        have hallLeft := (ihl hltype).mpr hl
        have hallRight := (ihr hrtype).mpr hr
        simp only [subexpressions, List.mem_cons, List.mem_append] at hmem
        rcases hmem with rfl | hmem | hmem
        · exact ⟨⟨(hself hallLeft).1, (hself hallRight).1, htrap⟩,
            (sameLow_binary hltype htype (hself hallLeft).2 (hself hallRight).2).mpr hnode⟩
        · exact hallLeft e' hmem
        · exact hallRight e' hmem

end IntExpr

end TinCompiler
