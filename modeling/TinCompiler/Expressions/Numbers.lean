import TinCompiler.Expressions.Integer
import TinCompiler.Expressions.ImplicitCast

/-!
# Expressions of `int` and `float`

The part of the language that is built from `int` and `float` literals, variables of these two
types, `+`, `-`, `*`, `/` and the comparisons.  `value` is the semantics that goes by the types:
the operation is one on floats if an operand is a float, and an `int` is converted first.  The
generator takes the float instruction only for arithmetic on a float and an `int`; `wide` is the
semantics on registers that results.
-/

namespace TinCompiler

inductive NumberOp where
  | arithmetic (op : ArithmeticOp)
  | compare (op : CompareOp)
deriving DecidableEq, Repr

def NumberOp.kind : NumberOp → BinaryKind
  | arithmetic .add => .add
  | arithmetic .sub => .sub
  | arithmetic .mul => .mul
  | arithmetic .div => .div
  | compare .equal => .equal
  | compare .notEqual => .notEqual
  | compare .less => .less
  | compare .greater => .greater
  | compare .lessEqual => .lessEqual
  | compare .greaterEqual => .greaterEqual

/-- An expression built from numbers; parentheses leave no node. -/
inductive NumberExpr where
  | literalInt (value : BitVec 32) (location : SourceLocation)
  | literalFloat (bits : BitVec 32) (location : SourceLocation)
  | identifier (name : String) (location : SourceLocation)
  | binary (op : NumberOp) (left right : NumberExpr) (location : SourceLocation)

namespace NumberExpr

def toAST : NumberExpr → ASTExpression
  | literalInt value location => .literalInt value location
  | literalFloat bits location => .literalFloat bits location
  | identifier name location => .identifier name location
  | binary op left right location => .binary op.kind left.toAST right.toAST location

def names : NumberExpr → List String
  | literalInt .. | literalFloat .. => []
  | identifier name _ => [name]
  | binary _ left right _ => left.names ++ right.names

/-- The expression and the ones it is built from. -/
def subexpressions : NumberExpr → List NumberExpr
  | e@(literalInt ..) => [e]
  | e@(literalFloat ..) => [e]
  | e@(identifier ..) => [e]
  | e@(binary _ left right _) => e :: (left.subexpressions ++ right.subexpressions)

/-- The number of slots that the code needs below the stack pointer. -/
def need : NumberExpr → ℕ
  | literalInt .. | literalFloat .. | identifier .. => 1
  | binary _ left right _ => max left.need (right.need + 1)

/-! ## By the types -/

/-- Arithmetic is on floats if an operand is a float, else on integers. -/
def resultType (types : String → TypeId) : NumberExpr → TypeId
  | literalInt .. => .int
  | literalFloat .. => .float
  | identifier name _ => types name
  | binary (.arithmetic _) left right _ =>
      if left.resultType types = .float ∨ right.resultType types = .float then .float
      else left.resultType types
  | binary (.compare _) _ _ _ => .bool

/-- An operand of a float operation. -/
def toFloat (host : Host) (type : TypeId) (x : BitVec 32) : BitVec 32 :=
  if type = .int then host.intToFloat x else x

/-- The operator, on operands of these types. -/
def applyTyped (host : Host) (op : NumberOp) (ltype rtype : TypeId) (x y : BitVec 32) :
    BitVec 32 :=
  if ltype = .float ∨ rtype = .float then
    match op with
    | .arithmetic op => host.floatArithmetic op (toFloat host ltype x) (toFloat host rtype y)
    | .compare op => truth (host.floatCompare op (toFloat host ltype x) (toFloat host rtype y))
  else op.kind.apply x y

def value (host : Host) (types : String → TypeId) (env : String → BitVec 32) :
    NumberExpr → BitVec 32
  | literalInt value _ => value
  | literalFloat bits _ => bits
  | identifier name _ => env name
  | binary op left right _ =>
      applyTyped host op (left.resultType types) (right.resultType types)
        (left.value host types env) (right.value host types env)

/-! ## By the generated code -/

/-- The type that `generateExpression` returns, if the operands have suitable types. -/
def typeOf (types : String → TypeId) : NumberExpr → Option TypeId
  | literalInt .. => some .int
  | literalFloat .. => some .float
  | identifier name _ => some (types name)
  | binary op left right _ =>
      (left.typeOf types).bind fun ltype => (right.typeOf types).bind fun rtype =>
        (binaryTypes op.kind ltype rtype).map Prod.fst

/-- The float instruction is taken. -/
def Mixed (op : NumberOp) (ltype rtype : TypeId) : Prop :=
  op.kind.IsArithmetic ∧ ltype ≠ rtype

instance (op : NumberOp) (ltype rtype : TypeId) : Decidable (Mixed op ltype rtype) :=
  inferInstanceAs (Decidable (_ ∧ _))

/-- The register of an operand of the float instruction. -/
def toFloatWide (host : Host) (type : TypeId) (x : BitVec 64) : BitVec 64 :=
  if type = .int then castValue host .intFloat x else x

/-- What the float instruction leaves in the register of the left operand. -/
def floatWide (host : Host) (op : NumberOp) (x y : BitVec 64) : BitVec 64 :=
  match op with
  | .arithmetic op =>
      VirtualMachine.setLow x (host.floatArithmetic op (x.setWidth 32) (y.setWidth 32))
  | .compare _ => x

def applyWide (host : Host) (op : NumberOp) (ltype rtype : TypeId) (x y : BitVec 64) :
    BitVec 64 :=
  if Mixed op ltype rtype then
    floatWide host op (toFloatWide host ltype x) (toFloatWide host rtype y)
  else op.kind.apply x y

/-- The semantics on 64 bits with signed literals and unsigned variables. -/
def wide (host : Host) (types : String → TypeId) (env : String → BitVec 32) :
    NumberExpr → BitVec 64
  | literalInt value _ => value.signExtend 64
  | literalFloat bits _ => bits.signExtend 64
  | identifier name _ => (env name).setWidth 64
  | binary op left right _ =>
      applyWide host op (left.resultType types) (right.resultType types)
        (left.wide host types env) (right.wide host types env)

/-- The integer division of the machine traps. -/
def Traps (op : NumberOp) (ltype rtype : TypeId) (x y : BitVec 64) : Prop :=
  op = .arithmetic .div ∧ ltype = rtype ∧ VirtualMachine.divisionTraps x y

/-- No division traps on 64 bits. -/
def NoTrap (host : Host) (types : String → TypeId) (env : String → BitVec 32) : NumberExpr → Prop
  | literalInt .. | literalFloat .. | identifier .. => True
  | binary op left right _ =>
      left.NoTrap host types env ∧ right.NoTrap host types env ∧
        ¬ Traps op (left.resultType types) (right.resultType types) (left.wide host types env)
          (right.wide host types env)

/-- The low bytes of the two semantics are the same. -/
def SameLow (host : Host) (types : String → TypeId) (env : String → BitVec 32) (e : NumberExpr) :
    Prop :=
  (e.wide host types env).setWidth (8 * IntExpr.width (e.resultType types)) =
    (e.value host types env).setWidth (8 * IntExpr.width (e.resultType types))

/-- The instruction is right whatever the operands are: arithmetic on a float and an `int`, and
`+`, `-` and `*` on integers. -/
def Safe (op : NumberOp) (ltype rtype : TypeId) : Prop :=
  Mixed op ltype rtype ∨ (¬ op.kind.ReadsAll ∧ ltype ≠ .float)

/-- Every other operator has an integer instruction that gives what the operator by the types
gives: a comparison, a division of integers, or arithmetic on two floats. -/
def Agree (host : Host) (types : String → TypeId) (env : String → BitVec 32) : NumberExpr → Prop
  | literalInt .. | literalFloat .. | identifier .. => True
  | e@(binary op left right _) =>
      left.Agree host types env ∧ right.Agree host types env ∧
        (¬ Safe op (left.resultType types) (right.resultType types) →
          ¬ Traps op (left.resultType types) (right.resultType types) (left.wide host types env)
            (right.wide host types env) ∧
          (op.kind.apply (left.wide host types env) (right.wide host types env)).setWidth
              (8 * IntExpr.width (e.resultType types)) =
            (applyTyped host op (left.resultType types) (right.resultType types)
              (left.value host types env) (right.value host types env)).setWidth
              (8 * IntExpr.width (e.resultType types)))

/-! ## Types -/

/-- The types that occur. -/
def IsNumber (type : TypeId) : Prop := type = .int ∨ type = .float ∨ type = .bool

/-- Of operands of these types the operator has been accepted. -/
structure Accepts (op : NumberOp) (ltype rtype type : TypeId) (isFloat : Bool) : Prop where
  isFloat : isFloat = decide (Mixed op ltype rtype)
  mixed : Mixed op ltype rtype → type = .float ∧
    ((ltype = .int ∧ rtype = .float) ∨ (ltype = .float ∧ rtype = .int))
  same : op.kind.IsArithmetic → ¬ Mixed op ltype rtype → type = ltype ∧ ltype = rtype
  compare : op.kind.IsArithmetic = false → type = .bool ∧ (ltype = .int ∨ ltype = .float)

theorem accepts {op : NumberOp} {ltype rtype type : TypeId} {isFloat : Bool} (hl : IsNumber ltype)
    (hr : IsNumber rtype) (h : binaryTypes op.kind ltype rtype = some (type, isFloat)) :
    Accepts op ltype rtype type isFloat := by
  rcases hl with rfl | rfl | rfl <;> rcases hr with rfl | rfl | rfl <;>
    rcases op with (_ | _ | _ | _) | (_ | _ | _ | _ | _ | _) <;>
    simp [binaryTypes, BinaryKind.IsArithmetic, BinaryKind.IsLogical, NumberOp.kind] at h <;>
    obtain ⟨rfl, rfl⟩ := h <;>
    constructor <;> simp [Mixed, BinaryKind.IsArithmetic, NumberOp.kind]

variable {types : String → TypeId}

theorem typeOf_binary {op : NumberOp} {left right : NumberExpr} {location : SourceLocation}
    {type : TypeId} (h : (binary op left right location).typeOf types = some type) :
    ∃ ltype rtype isFloat, left.typeOf types = some ltype ∧ right.typeOf types = some rtype ∧
      binaryTypes op.kind ltype rtype = some (type, isFloat) := by
  simp only [typeOf, Option.bind_eq_some_iff, Option.map_eq_some_iff] at h
  obtain ⟨ltype, hl, rtype, hr, ⟨outType, isFloat⟩, htypes, rfl⟩ := h
  exact ⟨ltype, rtype, isFloat, hl, hr, htypes⟩

theorem resultType_binary {op : NumberOp} {left right : NumberExpr} {type : TypeId} {isFloat : Bool}
    (location : SourceLocation)
    (h : Accepts op (left.resultType types) (right.resultType types) type isFloat) :
    type = (binary op left right location).resultType types := by
  cases op with
  | arithmetic op =>
      have harith : (NumberOp.arithmetic op).kind.IsArithmetic = true := by cases op <;> rfl
      by_cases hmixed : Mixed (.arithmetic op) (left.resultType types) (right.resultType types)
      · obtain ⟨htype, hcases⟩ := h.mixed hmixed
        rw [resultType, if_pos (hcases.symm.imp And.left And.right), htype]
      · obtain ⟨htype, hsame⟩ := h.same harith hmixed
        rw [resultType, htype]
        split
        · next hfloat => exact hfloat.elim id fun hr => hsame.trans hr
        · rfl
  | compare op => exact (h.compare (by cases op <;> rfl)).1

/-- The type of what is accepted is the one by the types of the operands. -/
theorem typeOf_eq {e : NumberExpr} : ∀ {type}, (∀ name ∈ e.names, IsNumber (types name)) →
    e.typeOf types = some type → type = e.resultType types ∧ IsNumber type := by
  induction e with
  | literalInt => intro type _ h; cases h; exact ⟨rfl, .inl rfl⟩
  | literalFloat => intro type _ h; cases h; exact ⟨rfl, .inr (.inl rfl)⟩
  | identifier name => intro type hnames h; cases h; exact ⟨rfl, hnames name (by simp [names])⟩
  | binary op left right location ihl ihr =>
      intro type hnames h
      obtain ⟨ltype, rtype, isFloat, hl, hr, htypes⟩ := typeOf_binary h
      obtain ⟨rfl, hlnumber⟩ := ihl (fun name hmem => hnames name (by simp [names, hmem])) hl
      obtain ⟨rfl, hrnumber⟩ := ihr (fun name hmem => hnames name (by simp [names, hmem])) hr
      have haccepts := accepts hlnumber hrnumber htypes
      refine ⟨resultType_binary location haccepts, ?_⟩
      cases harith : op.kind.IsArithmetic with
      | false => exact .inr (.inr (haccepts.compare harith).1)
      | true =>
          by_cases hmixed : Mixed op (left.resultType types) (right.resultType types)
          · exact .inr (.inl (haccepts.mixed hmixed).1)
          · rw [(haccepts.same harith hmixed).1]
            exact hlnumber

/-! ## The low bytes -/

variable {host : Host} {env : String → BitVec 32} {op : NumberOp} {left right : NumberExpr}
  {location : SourceLocation}

theorem setWidth_setLow (value : BitVec 64) (low : BitVec 32) :
    (VirtualMachine.setLow value low).setWidth 32 = low := by
  apply BitVec.eq_of_getLsbD_eq
  intro i hi
  rw [BitVec.getLsbD_setWidth, VirtualMachine.setLow, BitVec.getLsbD_append]
  simp [hi]

theorem setWidth_toFloatWide (type : TypeId) (x : BitVec 64) :
    (toFloatWide host type x).setWidth 32 = toFloat host type (x.setWidth 32) := by
  unfold toFloatWide toFloat
  split
  · exact setWidth_setLow _ _
  · rfl

theorem SameLow.word {e : NumberExpr} (h : SameLow host types env e)
    (htype : e.resultType types ≠ .bool) :
    (e.wide host types env).setWidth 32 = e.value host types env := by
  unfold SameLow at h
  have hwidth : IntExpr.width (e.resultType types) = 4 := if_neg htype
  rw [hwidth] at h
  simpa using h

/-- Arithmetic on a float and an `int` is right. -/
theorem sameLow_mixed {type : TypeId} {isFloat : Bool}
    (haccepts : Accepts op (left.resultType types) (right.resultType types) type isFloat)
    (hmixed : Mixed op (left.resultType types) (right.resultType types))
    (hl : SameLow host types env left) (hr : SameLow host types env right) :
    SameLow host types env (binary op left right location) := by
  obtain ⟨htype, hcases⟩ := haccepts.mixed hmixed
  have hresult : (binary op left right location).resultType types = .float :=
    (resultType_binary location haccepts).symm.trans htype
  have hfloat : left.resultType types = .float ∨ right.resultType types = .float :=
    hcases.symm.imp And.left And.right
  have hlword := hl.word (by rcases hcases with ⟨h, -⟩ | ⟨h, -⟩ <;> rw [h] <;> decide)
  have hrword := hr.word (by rcases hcases with ⟨-, h⟩ | ⟨-, h⟩ <;> rw [h] <;> decide)
  unfold SameLow
  rw [hresult]
  cases op with
  | compare op => exact absurd hmixed.1 (by cases op <;> decide)
  | arithmetic op =>
      rw [wide, applyWide, if_pos hmixed, value, applyTyped, if_pos hfloat, floatWide,
        setWidth_toFloatWide, setWidth_toFloatWide, hlword, hrword]
      change (VirtualMachine.setLow _ _).setWidth 32 = BitVec.setWidth 32 _
      rw [setWidth_setLow, BitVec.setWidth_eq]

theorem not_safe_of_traps {ltype rtype : TypeId} {x y : BitVec 64} (h : Traps op ltype rtype x y) :
    ¬ Safe op ltype rtype := by
  obtain ⟨rfl, hsame, -⟩ := h
  rintro (⟨-, hne⟩ | ⟨hreads, -⟩)
  · exact hne hsame
  · exact hreads trivial

/-- The low bytes of an expression, given those of the operands. -/
theorem sameLow_binary {type : TypeId} {isFloat : Bool}
    (haccepts : Accepts op (left.resultType types) (right.resultType types) type isFloat)
    (hl : SameLow host types env left) (hr : SameLow host types env right) :
    SameLow host types env (binary op left right location) ↔
      (¬ Safe op (left.resultType types) (right.resultType types) →
        (op.kind.apply (left.wide host types env) (right.wide host types env)).setWidth
            (8 * IntExpr.width ((binary op left right location).resultType types)) =
          (applyTyped host op (left.resultType types) (right.resultType types)
            (left.value host types env) (right.value host types env)).setWidth
            (8 * IntExpr.width ((binary op left right location).resultType types))) := by
  by_cases hmixed : Mixed op (left.resultType types) (right.resultType types)
  · exact iff_of_true (sameLow_mixed haccepts hmixed hl hr) fun hsafe => (hsafe (.inl hmixed)).elim
  have hwide : (binary op left right location).wide host types env =
      op.kind.apply (left.wide host types env) (right.wide host types env) := by
    rw [wide, applyWide, if_neg hmixed]
  unfold SameLow
  rw [hwide]
  refine ⟨fun h _ => h, fun h => ?_⟩
  by_cases hsafe : Safe op (left.resultType types) (right.resultType types)
  · -- the low bytes of a sum, a difference or a product of integers
    obtain hmixed' | ⟨hreads, hfloat⟩ := hsafe
    · exact absurd hmixed' hmixed
    have harith : op.kind.IsArithmetic := by
      cases hkind : op.kind <;> first
        | rfl
        | (rw [hkind] at hreads; exact (hreads trivial).elim)
    obtain ⟨htype, hsame⟩ := haccepts.same harith hmixed
    have hresult : (binary op left right location).resultType types = left.resultType types :=
      (resultType_binary location haccepts).symm.trans htype
    have hnone : ¬ (left.resultType types = .float ∨ right.resultType types = .float) := by
      rw [← hsame, or_self]
      exact hfloat
    have hvalue : (binary op left right location).value host types env =
        op.kind.apply (left.value host types env) (right.value host types env) := if_neg hnone
    rw [hresult, hvalue]
    have hle := IntExpr.width_le (left.resultType types)
    unfold SameLow at hl hr
    rw [← hsame] at hr
    exact IntExpr.apply_setWidth hreads (Nat.le_trans hle (by decide)) hle hl hr
  · exact h hsafe

theorem mem_subexpressions_self (e : NumberExpr) : e ∈ e.subexpressions := by
  cases e <;> simp [subexpressions]

theorem sameLow_leaf {e : NumberExpr} {w : BitVec 32}
    (hwide : e.wide host types env = w.signExtend 64 ∨ e.wide host types env = w.setWidth 64)
    (hvalue : e.value host types env = w) : SameLow host types env e := by
  have hle := IntExpr.width_le (e.resultType types)
  unfold SameLow
  rw [hvalue]
  rcases hwide with h | h <;> rw [h]
  · exact IntExpr.setWidth_signExtend _ (Nat.le_trans hle (by decide)) hle
  · exact BitVec.setWidth_setWidth_of_le _ (Nat.le_trans hle (by decide))

/-- The condition on the operators says that all subexpressions have the right low bytes. -/
theorem agree_iff {e : NumberExpr} : ∀ {type}, (∀ name ∈ e.names, IsNumber (types name)) →
    e.typeOf types = some type →
    ((∀ e' ∈ e.subexpressions, e'.NoTrap host types env ∧ SameLow host types env e') ↔
      e.Agree host types env) := by
  induction e with
  | literalInt value location =>
      intro type _ _
      simpa [subexpressions, Agree, NoTrap] using sameLow_leaf (.inl rfl) rfl
  | literalFloat bits location =>
      intro type _ _
      simpa [subexpressions, Agree, NoTrap] using sameLow_leaf (.inl rfl) rfl
  | identifier name location =>
      intro type _ _
      simpa [subexpressions, Agree, NoTrap] using sameLow_leaf (.inr rfl) rfl
  | binary op left right location ihl ihr =>
      intro type hnames htype
      obtain ⟨ltype, rtype, isFloat, hltype, hrtype, htypes⟩ := typeOf_binary htype
      have hlnames : ∀ name ∈ left.names, IsNumber (types name) := fun name hmem =>
        hnames name (by simp [names, hmem])
      have hrnames : ∀ name ∈ right.names, IsNumber (types name) := fun name hmem =>
        hnames name (by simp [names, hmem])
      obtain ⟨rfl, hlnumber⟩ := typeOf_eq hlnames hltype
      obtain ⟨rfl, hrnumber⟩ := typeOf_eq hrnames hrtype
      have haccepts := accepts hlnumber hrnumber htypes
      have hself : ∀ {e' : NumberExpr}, (∀ e'' ∈ e'.subexpressions,
          e''.NoTrap host types env ∧ SameLow host types env e'') →
          e'.NoTrap host types env ∧ SameLow host types env e' :=
        fun h => h _ (mem_subexpressions_self _)
      constructor
      · intro hall
        have hallLeft := fun e' (hmem : e' ∈ left.subexpressions) =>
          hall e' (by simp [subexpressions, hmem])
        have hallRight := fun e' (hmem : e' ∈ right.subexpressions) =>
          hall e' (by simp [subexpressions, hmem])
        obtain ⟨⟨-, -, htrap⟩, hsame⟩ := hself hall
        have hnode :=
          (sameLow_binary haccepts (hself hallLeft).2 (hself hallRight).2).mp hsame
        exact ⟨(ihl hlnames hltype).mp hallLeft, (ihr hrnames hrtype).mp hallRight,
          fun hsafe => ⟨htrap, hnode hsafe⟩⟩
      · rintro ⟨hl, hr, hnode⟩ e' hmem
        have hallLeft := (ihl hlnames hltype).mpr hl
        have hallRight := (ihr hrnames hrtype).mpr hr
        simp only [subexpressions, List.mem_cons, List.mem_append] at hmem
        rcases hmem with rfl | hmem | hmem
        · exact ⟨⟨(hself hallLeft).1, (hself hallRight).1, fun htrap =>
              (hnode (not_safe_of_traps htrap)).1 htrap⟩,
            (sameLow_binary haccepts (hself hallLeft).2 (hself hallRight).2).mpr
              fun hsafe => (hnode hsafe).2⟩
        · exact hallLeft e' hmem
        · exact hallRight e' hmem

end NumberExpr

end TinCompiler
