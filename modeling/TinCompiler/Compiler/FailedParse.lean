import TinCompiler.Lexer.Lex
import TinCompiler.Parser.Progress
import TinCompiler.Parser.Source

/-!
# A file that does not parse

`TASK_LEX_FILE` from the text of the file on.  `ParseTokenStream` returns a null pointer for a
stray token, a bad import or a bad declaration, and `processTasks` walks through the fixups of
the import before it tests the pointer (`failedParse_crashes`).
-/

namespace TinCompiler

namespace Compiler

/-- What the switch leaves: the task that is queued again and the compiler, or a crash. -/
inductive LexFileResult where
  | done (queued : Option Task) (c : Compiler)
  | nullDereference

/-- The state in which `ParseTokenStream` starts. -/
def parseState (c : Compiler) : ParseContext.State where
  reporter := c.reporter
  scopesUsed := c.ast.scopesUsed

/-- `TASK_LEX_FILE`; `none` is a file that cannot be opened.  An error of the lexer has no
token, its location is 0. -/
def lexFileStep (atof : String → BitVec 32) (garbage : BitVec 32)
    (texts : String → Option (List Char)) (task : Task) (c : Compiler) : LexFileResult :=
  match texts task.name with
  | none => .done none c
  | some text =>
      match lexFile atof text with
      | .error e => .done none { c with reporter := c.reporter.err 0 e.message }
      | .ok stream =>
          match ParseContext.parseTokenStream stream garbage c.parseState with
          | .done (returned, scopeId, file) s =>
              if returned then
                let lexed := { c with reporter := s.reporter }.lexFileTask
                  (fun _ => file.toSource scopeId s.scopes) task
                .done lexed.1 lexed.2
              else
                -- `for(auto& fix_imp : imp->fixups)` with a null pointer
                .nullDereference
          | _ => .nullDereference

/-- The file lexes and `ParseTokenStream` returns a null pointer. -/
def FailsToParse (atof : String → BitVec 32) (garbage : BitVec 32)
    (texts : String → Option (List Char)) (task : Task) (c : Compiler) : Prop :=
  ∃ text stream file s, texts task.name = some text ∧ lexFile atof text = .ok stream ∧
    ParseContext.parseTokenStream stream garbage c.parseState = .done (false, file) s

/-- The step is completed with an error, and the file has no task any more. -/
def LexFileResult.Handled : LexFileResult → Prop
  | done queued c => queued = none ∧ 0 < c.reporter.errors
  | nullDereference => False

variable {atof : String → BitVec 32} {garbage : BitVec 32} {texts : String → Option (List Char)}
  {task : Task} {c : Compiler}

theorem lexFileStep_of_lexed {text : List Char} {stream : TokenStream}
    (htext : texts task.name = some text) (hlex : lexFile atof text = .ok stream) :
    c.lexFileStep atof garbage texts task =
      match ParseContext.parseTokenStream stream garbage c.parseState with
      | .done (returned, scopeId, file) s =>
          if returned then
            .done ({ c with reporter := s.reporter }.lexFileTask
                (fun _ => file.toSource scopeId s.scopes) task).1
              ({ c with reporter := s.reporter }.lexFileTask
                (fun _ => file.toSource scopeId s.scopes) task).2
          else .nullDereference
      | _ => .nullDereference := by
  unfold lexFileStep
  rw [htext]
  dsimp only
  rw [hlex]

theorem crash_of_failsToParse (h : FailsToParse atof garbage texts task c) :
    c.lexFileStep atof garbage texts task = .nullDereference := by
  obtain ⟨text, stream, ⟨scopeId, file⟩, s, htext, hlex, hdone⟩ := h
  rw [lexFileStep_of_lexed htext hlex, hdone]
  exact if_neg Bool.false_ne_true

/-- Since the parser comes to an end, a crash is a null pointer that it returned. -/
theorem failsToParse_of_crash {text : List Char} {stream : TokenStream}
    (htext : texts task.name = some text) (hlex : lexFile atof text = .ok stream)
    (hcrash : c.lexFileStep atof garbage texts task = .nullDereference) :
    FailsToParse atof garbage texts task c := by
  have hparser : (ParseContext.parseTokenStream stream garbage c.parseState).Ends _ :=
    ParseContext.parseTokenStream_meets
  obtain ⟨⟨returned, scopeId, file⟩, s, hdone, -, -⟩ := Result.Ends.exists hparser
  cases returned with
  | true =>
      rw [lexFileStep_of_lexed htext hlex, hdone] at hcrash
      dsimp only at hcrash
      rw [if_pos rfl] at hcrash
      cases hcrash
  | false => exact ⟨text, stream, _, s, htext, hlex, hdone⟩

/-! ## A file that is one identifier -/

/-- The text of every file is one identifier. -/
def strayTexts (_ : String) : Option (List Char) := some "x\n".toList

def strayTask : Task := { type := .lexFile, name := "main" }

/-- What the step leaves when the file of `strayTask` is processed first. -/
def strayResult : LexFileResult := (start "main").lexFileStep (fun _ => 0) 0 strayTexts strayTask

def LexFileResult.isNull : LexFileResult → Bool
  | nullDereference => true
  | done _ _ => false

theorem strayResult_eq : strayResult = .nullDereference := by
  have hnull : strayResult.isNull = true := by decide +kernel
  cases h : strayResult with
  | nullDereference => rfl
  | done queued c =>
      rw [h] at hnull
      cases hnull

theorem lexFile_stray : ∃ stream, lexFile (fun _ => 0) "x\n".toList = .ok stream := by
  have hok : (lexFile (fun _ => 0) "x\n".toList).isOk = true := by decide +kernel
  cases h : lexFile (fun _ => 0) "x\n".toList with
  | ok stream => exact ⟨stream, rfl⟩
  | error e =>
      rw [h] at hok
      cases hok

theorem failsToParse_stray :
    FailsToParse (fun _ => 0) 0 strayTexts strayTask (start "main") := by
  obtain ⟨stream, hlex⟩ := lexFile_stray
  exact failsToParse_of_crash rfl hlex strayResult_eq

/-- A file that lexes crashes the compiler exactly when it does not parse, whatever waits in its
fixups; the parser has reported an error before that. -/
theorem failedParse_crashes {text : List Char} {stream : TokenStream}
    (htext : texts task.name = some text) (hlex : lexFile atof text = .ok stream) :
    (c.lexFileStep atof garbage texts task = .nullDereference ↔
      FailsToParse atof garbage texts task c) ∧
    ∀ file s, ParseContext.parseTokenStream stream garbage c.parseState = .done (false, file) s →
      ¬ (c.lexFileStep atof garbage texts task).Handled ∧
        c.reporter.errors < s.reporter.errors := by
  refine ⟨⟨failsToParse_of_crash htext hlex, crash_of_failsToParse⟩, fun file s hdone => ?_⟩
  have hcrash : c.lexFileStep atof garbage texts task = .nullDereference :=
    crash_of_failsToParse ⟨text, stream, file, s, htext, hlex, hdone⟩
  have hparser : (ParseContext.parseTokenStream stream garbage c.parseState).Ends _ :=
    ParseContext.parseTokenStream_meets
  obtain ⟨r, s', hdone', -, hfailed⟩ := Result.Ends.exists hparser
  constructor
  · rw [hcrash]
    exact id
  · rw [hdone] at hdone'
    cases hdone'
    exact (hfailed rfl).errors

theorem failedParse_crashes_stray : ∃ stream, lexFile (fun _ => 0) "x\n".toList = .ok stream ∧
    (strayResult = .nullDereference ↔
      FailsToParse (fun _ => 0) 0 strayTexts strayTask (start "main")) := by
  obtain ⟨stream, hlex⟩ := lexFile_stray
  have hcrashes := @failedParse_crashes (fun _ => 0) 0 strayTexts strayTask (start "main") _ _
    rfl hlex
  exact ⟨stream, hlex, hcrashes.1⟩

/-- The stray file is not handled. -/
theorem not_failedParse_handled : ¬ ∀ (atof : String → BitVec 32) (garbage : BitVec 32)
    (texts : String → Option (List Char)) (task : Task) (c : Compiler),
    FailsToParse atof garbage texts task c → (c.lexFileStep atof garbage texts task).Handled := by
  intro handled
  have hstray := handled _ _ _ _ _ failsToParse_stray
  rw [crash_of_failsToParse failsToParse_stray] at hstray
  exact hstray

end Compiler

end TinCompiler
