import TinCompiler.Generator.Function

/-!
# The traversal of the globals

`main` gives the globals of all imports their initial values, body by body.  What is true of
one global and goes through sequences is true of the whole traversal (`Composes.setImportGlobals`).
-/

namespace TinCompiler

open GeneratorM

/-- A property of computations that goes through sequences. -/
structure Composes (P : GeneratorM Unit → Prop) : Prop where
  pure : P (Pure.pure ())
  andThen : ∀ {x y : GeneratorM Unit}, P x → P y → P (x >>= fun _ => y)
  read : ∀ {f : GeneratorContext → GeneratorM Unit}, (∀ c, P (f c)) → P (getContext >>= f)
  setScope : ∀ scopeId, P (TinCompiler.setScope scopeId)
  setGlobal : ∀ statement, P (TinCompiler.setGlobal statement)

namespace Composes

variable {P : GeneratorM Unit → Prop}

theorem forM {α : Type} {f : α → GeneratorM Unit} (h : Composes P) (hf : ∀ a, P (f a)) :
    ∀ l : List α, P (l.forM f)
  | [] => h.pure
  | a :: l => h.andThen (hf a) (h.forM hf l)

theorem setOwnGlobals (h : Composes P) (scopeId : ScopeId) (statements : List ASTStatement) :
    P (TinCompiler.setOwnGlobals scopeId statements) :=
  h.andThen (h.setScope scopeId) (h.forM h.setGlobal statements)

mutual

theorem setGlobals (h : Composes P) : ∀ body : ASTBody, P (TinCompiler.setGlobals body)
  | .mk scopeId statements => by
      unfold TinCompiler.setGlobals
      exact h.andThen (h.setOwnGlobals scopeId statements) (setNestedGlobals h statements)

theorem setNestedGlobals (h : Composes P) : ∀ statements : List ASTStatement,
    P (TinCompiler.setNestedGlobals statements)
  | [] => by
      unfold TinCompiler.setNestedGlobals
      exact h.pure
  | statement :: rest => by
      unfold TinCompiler.setNestedGlobals
      exact h.andThen (setNestedGlobals h rest) (setStatementGlobals h statement)

theorem setStatementGlobals (h : Composes P) : ∀ statement : ASTStatement,
    P (TinCompiler.setStatementGlobals statement)
  | .ifElse _ body none _ => by
      unfold TinCompiler.setStatementGlobals
      exact setGlobals h body
  | .ifElse _ body (some elseBody) _ => by
      unfold TinCompiler.setStatementGlobals
      exact h.andThen (setGlobals h elseBody) (setGlobals h body)
  | .while _ body _ => by
      unfold TinCompiler.setStatementGlobals
      exact setGlobals h body
  | .varDeclaration .. | .globalDeclaration .. | .constDeclaration .. | .expression .. | .break _
  | .continue _ | .return .. => by
      unfold TinCompiler.setStatementGlobals
      exact h.pure

end

theorem setImportGlobals (h : Composes P) (imp : FileBody) :
    P (TinCompiler.setImportGlobals imp) :=
  h.andThen (h.setOwnGlobals _ _) (h.andThen (h.setNestedGlobals _)
    (h.read fun _ => h.forM h.setGlobals _))

end Composes

end TinCompiler
